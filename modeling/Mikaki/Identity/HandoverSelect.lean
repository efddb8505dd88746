import Mikaki.Identity.Handover

/-!
# The handover select message

What is written for a carrier is read back record by record. It is a select
message, which the validation of a request refuses; under the kind of a request
the same message passes.
-/

namespace Mikaki.Identity.Handover

open Checks Slices

def record (flags : UInt8) (kind id payload : List UInt8) : Except String (List UInt8) := do
  denyIf (255 < payload.length) invalid
  let header := [flags ||| 0x10 ||| if id = [] then 0 else 8, UInt8.ofNat kind.length, UInt8.ofNat payload.length]
  return header ++ (if id = [] then [] else [UInt8.ofNat id.length]) ++ kind ++ id ++ payload

def acPayload (carrierId : List UInt8) : List UInt8 := [1, UInt8.ofNat carrierId.length] ++ carrierId ++ [1, 4] ++ Text.bytes "mdoc"

def handoverSelect (engagement : List UInt8) (carrierFlags : UInt8) (carrierKind carrierId carrier : List UInt8) :
    Except String (List UInt8) := do
  let ac ← record 0xc1 (Text.bytes "ac") [] (acPayload carrierId)
  let hs ← record 0x81 (Text.bytes "Hs") [] (0x15 :: ac)
  let de ← record 4 (Text.bytes "iso.org:18013:deviceengagement") (Text.bytes "mdoc") engagement
  let cr ← record carrierFlags carrierKind carrierId carrier
  return hs ++ de ++ cr

def oob (uuid : Vector UInt8 16) : List UInt8 := [2, 0x1c, 0, 17, 7] ++ uuid.toList.reverse

def staticHandoverSelect (engagement : List UInt8) (uuid : Vector UInt8 16) : Except String (List UInt8) :=
  handoverSelect engagement 0x42 (Text.bytes "application/vnd.bluetooth.le.oob") (Text.bytes "0") (oob uuid)

def nfcDataHandoverSelect (engagement : List UInt8) : Except String (List UInt8) :=
  handoverSelect engagement 0x44 (Text.bytes "iso.org:18013:nfc") (Text.bytes "nfc") [1, 2, 1, 255, 3, 2, 1, 0]

/-! ## One record -/

/-- What the first byte of a record says where it stands. -/
structure Header (b : UInt8) (id : List UInt8) (first last : Bool) : Prop where
  whole : b &&& 0x20 = 0
  short : b &&& 0x10 ≠ 0
  named : b &&& 8 ≠ 0 ↔ id ≠ []
  first : decide (b &&& 0x80 ≠ 0) = first
  last : decide (b &&& 0x40 ≠ 0) = last
  tnf : 1 ≤ b &&& 7 ∧ b &&& 7 ≤ 4

theorem require_pos {c : Prop} [Decidable c] (h : c) : require c = .ok () := require_eq_ok.mpr h

theorem require_neg {c : Prop} [Decidable c] (h : ¬c) : require c = fail invalid := by
  rw [require, denyIf, if_pos h]
  rfl

theorem toNat_ofNat_of_le {n : Nat} (h : n ≤ 255) : (UInt8.ofNat n).toNat = n := by
  rw [UInt8.toNat_ofNat', Nat.mod_eq_of_lt (by omega)]

theorem readRecord_record {flags b : UInt8} {kind id payload out : List UInt8} (result : List Record) (rest : List UInt8)
    (hout : record flags kind id payload = .ok out) (hb : flags ||| 0x10 ||| (if id = [] then 0 else 8) = b)
    (hheader : Header b id result.isEmpty rest.isEmpty) (hkind : 0 < kind.length ∧ kind.length ≤ 255) (hid : id.length ≤ 255)
    (hlen : result.length < 16) (hfresh : id = [] ∨ ∀ r ∈ result, r.id ≠ id) :
    readRecord result (out ++ rest) = .ok (result ++ [⟨b &&& 7, kind, id, payload⟩], rest) := by
  simp only [record, bind_eq_ok, exists_unit, denyIf_eq_ok, pure_eq_ok, hb] at hout
  obtain ⟨hpayload, rfl⟩ := hout
  have hk := toNat_ofNat_of_le hkind.2
  have hp := toNat_ofNat_of_le (Nat.le_of_not_lt hpayload)
  have hi := toNat_ofNat_of_le hid
  set header := [b, UInt8.ofNat kind.length, UInt8.ofNat payload.length] ++ if id = [] then [] else [UInt8.ofNat id.length] with hset
  have hdata : header ++ kind ++ id ++ payload ++ rest = header ++ (kind ++ (id ++ (payload ++ rest))) := by
    simp only [List.append_assoc]
  rw [hdata]
  set data := header ++ (kind ++ (id ++ (payload ++ rest))) with hdef
  have hsize : data.length = header.length + kind.length + id.length + payload.length + rest.length := by
    simp only [hdef, List.length_append]
    omega
  have hpayloadLen : payloadLength b data = .ok (3, payload.length) := by
    rw [payloadLength, if_pos hheader.short]
    exact congrArg (fun n => Except.ok (3, n)) hp
  have hidLen : idLength b data 3 = .ok (header.length, id.length) := by
    by_cases hnil : id = []
    · rw [idLength, if_neg fun h => hheader.named.mp h hnil, hset, if_pos hnil, hnil]
      rfl
    · rw [idLength, if_pos (hheader.named.mpr hnil), hdef, hset, if_neg hnil]
      exact congrArg (fun n => Except.ok (4, n)) hi
  have hindex₀ : (index data 0 : Read UInt8) = .ok b := rfl
  have hindex₁ : (index data 1 : Read UInt8) = .ok (UInt8.ofNat kind.length) := rfl
  have h3 : 3 ≤ header.length := by
    rw [hset, List.length_append]
    exact Nat.le_add_right 3 _
  unfold readRecord
  rw [require_pos ⟨by omega, by omega⟩, hindex₀, hindex₁, ok_bind, ok_bind, require_pos ⟨hheader.whole, hheader.first⟩, ok_bind]
  dsimp only
  rw [require_pos hheader.tnf, ok_bind, ok_bind, hpayloadLen, ok_bind]
  dsimp only
  rw [hidLen, ok_bind]
  dsimp only
  rw [hk, require_pos ⟨by omega, by omega⟩, ok_bind, slice_middle hdef rfl rfl, ok_bind,
    slice_middle (a := header ++ kind) (b := id) (d := payload ++ rest) (by simp only [hdef, List.append_assoc]) List.length_append rfl,
    ok_bind, require_pos hfresh, ok_bind]
  rw [slice_middle (a := header ++ kind ++ id) (b := payload) (d := rest) (by simp only [hdef, List.append_assoc])
      (by rw [List.length_append, List.length_append]) rfl, ok_bind, slice_middle (a := header ++ kind ++ id ++ payload) (b := rest) (d := [])
      (by simp only [hdef, List.append_assoc, List.append_nil]) (by simp only [List.length_append]) hsize.symm, ok_bind,
    require_pos hheader.last]
  rfl

/-! ## The message -/

/-- A carrier that a handover may name. -/
structure Carrier where
  tnf : UInt8
  kind : List UInt8
  id : List UInt8
  payload : List UInt8
  tnf_range : tnf = 1 ∨ tnf = 2 ∨ tnf = 3 ∨ tnf = 4
  kind_length : 0 < kind.length ∧ kind.length ≤ 255
  id_length : 0 < id.length ∧ id.length ≤ 240
  id_ne : id ≠ Text.bytes "mdoc"
  payload_length : payload.length ≤ 255

def Carrier.record (self : Carrier) : Record := ⟨self.tnf, self.kind, self.id, self.payload⟩

def Carrier.reference (self : Carrier) : Record := ⟨1, Text.bytes "ac", [], acPayload self.id⟩

/-- The record of the reference, as it is nested in the first one. -/
def Carrier.nested (self : Carrier) : List UInt8 :=
  [0xd1, 2, UInt8.ofNat (acPayload self.id).length] ++ Text.bytes "ac" ++ acPayload self.id

/-- The records of a message whose first one is of a kind. -/
def message (kind engagement : List UInt8) (carrier : Carrier) : List Record :=
  [⟨1, kind, [], 0x15 :: carrier.nested⟩, ⟨4, Text.bytes "iso.org:18013:deviceengagement", Text.bytes "mdoc", engagement⟩,
    carrier.record]

theorem record_eq_ok {flags : UInt8} {kind id payload out : List UInt8} (h : record flags kind id payload = .ok out) :
    payload.length ≤ 255 ∧ out ≠ [] := by
  simp only [record, bind_eq_ok, exists_unit, denyIf_eq_ok, pure_eq_ok] at h
  obtain ⟨hlen, rfl⟩ := h
  exact ⟨Nat.le_of_not_lt hlen, List.cons_ne_nil _ _⟩

theorem length_record {flags : UInt8} {kind id payload out : List UInt8} (h : record flags kind id payload = .ok out) :
    out.length ≤ kind.length + id.length + 259 := by
  have hlen := (record_eq_ok h).1
  simp only [record, bind_eq_ok, exists_unit, denyIf_eq_ok, pure_eq_ok] at h
  rw [← h.2]
  have hid : (if id = [] then [] else [UInt8.ofNat id.length]).length ≤ 1 := by
    split
    · exact Nat.zero_le 1
    · exact Nat.le_refl 1
  simp only [List.length_append, List.length_cons, List.length_nil]
  omega

theorem record_of_le (flags : UInt8) (kind id : List UInt8) {payload : List UInt8} (h : payload.length ≤ 255) :
    ∃ out, record flags kind id payload = .ok out := by
  rw [record, denyIf, if_neg (Nat.not_lt.mpr h)]
  exact ⟨_, rfl⟩

theorem isEmpty_append {l : List UInt8} (h : l ≠ []) (m : List UInt8) : (l ++ m).isEmpty = false := by
  cases l with
  | nil => exact absurd rfl h
  | cons a l => rfl

theorem records_eq {data : List UInt8} {result : List Record} (h : consume readRecord_less [] data = .ok result) (hne : result ≠ []) :
    records data = .ok result := by
  rw [records, h, ok_bind, require_pos hne]
  rfl

/-- Three records are read as they were written. -/
theorem records_message {kind engagement hs de cr : List UInt8} (c : Carrier) (hkind : kind.length = 2)
    (hhs : record 0x81 kind [] (0x15 :: c.nested) = .ok hs)
    (hde : record 4 (Text.bytes "iso.org:18013:deviceengagement") (Text.bytes "mdoc") engagement = .ok de)
    (hcr : record (0x40 ||| c.tnf) c.kind c.id c.payload = .ok cr) :
    records (hs ++ (de ++ cr)) = .ok (message kind engagement c) := by
  have hid : c.id ≠ [] := List.ne_nil_of_length_pos c.id_length.1
  have hidlen := c.id_length.2
  let first : Record := ⟨1, kind, [], 0x15 :: c.nested⟩
  let second : Record := ⟨4, Text.bytes "iso.org:18013:deviceengagement", Text.bytes "mdoc", engagement⟩
  have hround₁ : readRecord [] (hs ++ (de ++ cr)) = .ok ([first], de ++ cr) := by
    refine readRecord_record _ _ hhs rfl ⟨by decide, by decide, by decide, rfl, ?_, by decide⟩ (by omega) (by decide) (by decide) (.inl rfl)
    rw [isEmpty_append (record_eq_ok hde).2]
    rfl
  have hround₂ : readRecord [first] (de ++ cr) = .ok ([first, second], cr) := by
    refine readRecord_record _ _ hde rfl ⟨by decide, by decide, by decide, rfl, ?_, by decide⟩ (by decide) (by decide) (by simp) (.inr ?_)
    · have hcrne := isEmpty_append (record_eq_ok hcr).2 []
      rw [List.append_nil] at hcrne
      rw [hcrne]
      rfl
    · intro r hr
      rw [List.mem_singleton.mp hr]
      exact (by decide : ([] : List UInt8) ≠ Text.bytes "mdoc")
  have hround₃ : readRecord [first, second] cr = .ok (message kind engagement c, []) := by
    have hfresh : ∀ r ∈ [first, second], r.id ≠ c.id := by
      intro r hr
      rcases List.mem_cons.mp hr with rfl | hr
      · exact hid.symm
      · rw [List.mem_singleton.mp hr]
        exact c.id_ne.symm
    have htnf : (0x40 ||| c.tnf ||| 0x10 ||| (if c.id = [] then 0 else 8)) &&& 7 = c.tnf := by
      rw [if_neg hid]
      rcases c.tnf_range with h | h | h | h <;> rw [h] <;> rfl
    have hheader : Header (0x40 ||| c.tnf ||| 0x10 ||| (if c.id = [] then 0 else 8)) c.id false true := by
      rw [if_neg hid]
      rcases c.tnf_range with h | h | h | h <;> rw [h] <;>
        exact ⟨by decide, by decide, iff_of_true (by decide) hid, rfl, rfl, by decide⟩
    have hread := readRecord_record [first, second] [] hcr rfl hheader c.kind_length (by omega) (by simp) (.inr hfresh)
    rw [List.append_nil, htnf] at hread
    rw [hread, message]
    rfl
  refine records_eq ?_ (List.cons_ne_nil _ _)
  rw [consume_round readRecord_less (List.append_ne_nil_of_left_ne_nil (record_eq_ok hhs).2 _) hround₁,
    consume_round readRecord_less (List.append_ne_nil_of_left_ne_nil (record_eq_ok hde).2 _) hround₂,
    consume_round readRecord_less (record_eq_ok hcr).2 hround₃, consume_nil]

theorem length_acPayload (c : Carrier) : (acPayload c.id).length = c.id.length + 8 := by
  have hmdoc : (Text.bytes "mdoc").length = 4 := by decide
  simp only [acPayload, List.length_append, List.length_cons, List.length_nil, hmdoc]
  omega

theorem record_reference (c : Carrier) : record 0xc1 (Text.bytes "ac") [] (acPayload c.id) = .ok c.nested := by
  have hlen := length_acPayload c
  have hidlen := c.id_length.2
  rw [record, denyIf, if_neg (by omega)]
  simp only [if_pos, List.append_nil]
  rfl

theorem records_reference (c : Carrier) : records c.nested = .ok [c.reference] := by
  have hround : readRecord [] c.nested = .ok ([c.reference], []) := by
    have hread := readRecord_record [] [] (record_reference c) rfl
      ⟨by decide, by decide, by decide, rfl, rfl, by decide⟩ (by decide) (by decide) (by decide) (.inl rfl)
    rwa [List.append_nil] at hread
  refine records_eq ?_ (List.cons_ne_nil _ _)
  rw [consume_round readRecord_less (record_eq_ok (record_reference c)).2 hround, consume_nil]

/-- What a message consists of, and how long it is. -/
theorem handoverSelect_eq_ok {engagement m : List UInt8} {c : Carrier}
    (h : handoverSelect engagement (0x40 ||| c.tnf) c.kind c.id c.payload = .ok m) :
    engagement.length ≤ 255 ∧ m.length ≤ 4094 ∧ records m = .ok (message (Text.bytes "Hs") engagement c) ∧
      records (m.set 4 0x72) = .ok (message (Text.bytes "Hr") engagement c) := by
  simp only [handoverSelect, record_reference, ok_bind, bind_eq_ok, pure_eq_ok] at h
  obtain ⟨hs, hhs, de, hde, cr, hcr, rfl⟩ := h
  have hlen := (record_eq_ok hde).1
  have hclen := c.payload_length
  have hklen := c.kind_length.2
  have hilen := c.id_length.2
  have hplen := length_acPayload c
  have hread {kind hs : List UInt8} (hkind : kind.length = 2) (hhs : record 0x81 kind [] (0x15 :: c.nested) = .ok hs) :
      records (hs ++ de ++ cr) = .ok (message kind engagement c) := by
    rw [List.append_assoc]
    exact records_message c hkind hhs hde hcr
  refine ⟨hlen, ?_, hread (by decide) hhs, ?_⟩
  · have hHs : (Text.bytes "Hs").length = 2 := by decide
    have hde' : (Text.bytes "iso.org:18013:deviceengagement").length = 30 ∧ (Text.bytes "mdoc").length = 4 := by decide
    have h₁ := length_record hhs
    have h₂ := length_record hde
    have h₃ := length_record hcr
    rw [hHs, List.length_nil] at h₁
    rw [hde'.1, hde'.2] at h₂
    rw [List.length_append, List.length_append]
    omega
  · obtain ⟨hr, hhr⟩ := record_of_le 0x81 (Text.bytes "Hr") [] (record_eq_ok hhs).1
    have hset : (hs ++ de ++ cr).set 4 0x72 = hr ++ de ++ cr := by
      simp only [record, bind_eq_ok, exists_unit, pure_eq_ok] at hhs hhr
      rw [← hhs.2, ← hhr.2]
      rfl
    rw [hset]
    exact hread (by decide) hhr

/-- The size of the engagement decides. -/
theorem handoverSelect_iff {engagement : List UInt8} (c : Carrier) :
    (∃ m, handoverSelect engagement (0x40 ||| c.tnf) c.kind c.id c.payload = .ok m) ↔ engagement.length ≤ 255 := by
  refine ⟨fun ⟨m, h⟩ => (handoverSelect_eq_ok h).1, fun h => ?_⟩
  have hplen := length_acPayload c
  have hilen := c.id_length.2
  have hnested : c.nested.length = (acPayload c.id).length + 5 := by
    have htwo : (Text.bytes "ac").length = 2 := by decide
    simp only [Carrier.nested, List.length_append, List.length_cons, List.length_nil, htwo]
    omega
  obtain ⟨hs, hhs⟩ := record_of_le 0x81 (Text.bytes "Hs") [] (show (0x15 :: c.nested).length ≤ 255 by rw [List.length_cons]; omega)
  obtain ⟨de, hde⟩ := record_of_le 4 (Text.bytes "iso.org:18013:deviceengagement") (Text.bytes "mdoc") h
  obtain ⟨cr, hcr⟩ := record_of_le (0x40 ||| c.tnf) c.kind c.id c.payload_length
  exact ⟨_, by rw [handoverSelect, record_reference, ok_bind, hhs, ok_bind, hde, ok_bind, hcr, ok_bind]; rfl⟩

/-! ## The validation of a request -/

/-- Whatever begins with a select record is refused. -/
theorem validateRequest_select {m engagement : List UInt8} {c : Carrier} (h : records m = .ok (message (Text.bytes "Hs") engagement c))
    (nfcData : Bool) : validateRequest m nfcData = fail invalid := by
  have hkind : Text.bytes "Hs" ≠ Text.bytes "Hr" := by decide
  rw [validateRequest]
  by_cases hlen : m ≠ [] ∧ m.length ≤ 4094
  · have hindex : (index (message (Text.bytes "Hs") engagement c) 0 : Read Record) =
        .ok ⟨1, Text.bytes "Hs", [], 0x15 :: c.nested⟩ := rfl
    rw [require_pos hlen, ok_bind, h, ok_bind, hindex, ok_bind, require_neg fun hr => hkind hr.2.1]
    rfl
  · rw [require_neg hlen]
    rfl

/-- The reference of the carrier is the one of a request. -/
theorem scanRecord_reference (kind engagement : List UInt8) (c : Carrier) (nfcData : Bool) {supported : Bool}
    (h : supports nfcData false c.record = .ok supported) :
    scanRecord (message kind engagement c) nfcData ⟨[], false, false⟩ c.reference = .ok ⟨[c.id], false, supported⟩ := by
  have hilen := c.id_length
  have hlen := length_acPayload c
  have hmdoc : (Text.bytes "mdoc").length = 4 := by decide
  have hi := toNat_ofNat_of_le (by omega : c.id.length ≤ 255)
  have hp : acPayload c.id = [1, UInt8.ofNat c.id.length] ++ (c.id ++ ([1, 4] ++ (Text.bytes "mdoc" ++ []))) := by
    simp only [acPayload, List.append_assoc, List.append_nil]
  have hstate : (index (acPayload c.id) 0 : Read UInt8) = .ok 1 := rfl
  have hsize : (index (acPayload c.id) 1 : Read UInt8) = .ok (UInt8.ofNat c.id.length) := rfl
  have hid : (slice (acPayload c.id) 2 (2 + c.id.length) : Read (List UInt8)) = .ok c.id := slice_middle hp rfl rfl
  have hcount : (index (acPayload c.id) (c.id.length + 2) : Read UInt8) = .ok 1 :=
    index_middle (a := [1, UInt8.ofNat c.id.length] ++ c.id) (by rw [hp, List.append_assoc]; rfl)
      (by rw [List.length_append]; exact Nat.add_comm 2 _)
  have hlength : (index (acPayload c.id) (c.id.length + 3) : Read UInt8) = .ok 4 :=
    index_middle (a := [1, UInt8.ofNat c.id.length] ++ c.id ++ [1]) (by rw [hp, List.append_assoc, List.append_assoc]; rfl)
      (by rw [List.length_append, List.length_append]; exact congrArg Nat.succ (Nat.add_comm 2 _))
  have hauxiliary : (slice (acPayload c.id) (c.id.length + 3 + 1) (c.id.length + 3 + 1 + 4) : Read (List UInt8)) = .ok (Text.bytes "mdoc") :=
    slice_middle (a := [1, UInt8.ofNat c.id.length] ++ c.id ++ [1, 4]) (d := [])
      (by simp only [hp, List.append_assoc]) (by simp) (by rw [hmdoc])
  have hends : auxiliaries (message kind engagement c) (acPayload c.id) 1 (c.id.length + 3) = .ok (acPayload c.id).length := by
    have hfour : (4 : UInt8).toNat = 4 := rfl
    rw [auxiliaries, require_pos (by omega), ok_bind, hlength, ok_bind]
    dsimp only
    rw [hfour, require_pos (by omega), ok_bind, hauxiliary, ok_bind, require_pos ⟨by decide, _, List.mem_cons_self, rfl⟩, ok_bind,
      auxiliaries, hlen]
  have hkind : c.reference.kind ≠ Text.bytes "cr" := (by decide : Text.bytes "ac" ≠ Text.bytes "cr")
  have hfind : ((message kind engagement c).drop 1).find? (fun r => r.id = c.id) = some c.record := by
    have hne : ¬(Text.bytes "mdoc" = c.id) := c.id_ne.symm
    simp [message, hne, Carrier.record]
  have hpayload : c.reference.payload = acPayload c.id := rfl
  rw [scanRecord, require_pos ⟨rfl, rfl⟩, ok_bind, if_neg hkind]
  dsimp only
  rw [hpayload, require_pos ⟨rfl, by omega⟩, ok_bind, hstate, ok_bind, require_pos (by decide), ok_bind, hsize, ok_bind,
    hi, require_pos ⟨by omega, by omega⟩, ok_bind, hid, ok_bind, require_pos List.not_mem_nil, ok_bind, hfind]
  dsimp only
  rw [hcount, ok_bind]
  show (auxiliaries _ _ 1 _ >>= _) = _
  rw [hends, ok_bind, require_pos rfl, ok_bind, carried, if_pos (.inl rfl), h]
  rfl

/-- Under the kind of a request the message passes. -/
theorem validateRequest_request {m engagement : List UInt8} {c : Carrier} {nfcData : Bool} (hlen : m.length ≤ 4094)
    (hm : records m = .ok (message (Text.bytes "Hr") engagement c)) (h : supports nfcData false c.record = .ok true) :
    validateRequest m nfcData = .ok () := by
  have hne : m ≠ [] := by
    intro hnil
    rw [hnil, records, consume_nil, ok_bind, require_neg (not_not.mpr rfl)] at hm
    cases hm
  have hindex : (index (message (Text.bytes "Hr") engagement c) 0 : Read Record) = .ok ⟨1, Text.bytes "Hr", [], 0x15 :: c.nested⟩ := rfl
  rw [validateRequest, require_pos ⟨hne, hlen⟩, ok_bind, hm, ok_bind, hindex, ok_bind, require_pos ⟨rfl, rfl, rfl, rfl⟩, ok_bind]
  dsimp only
  rw [slice_drop (by rw [List.length_cons]; omega), ok_bind, List.drop_one, List.tail_cons, records_reference c, ok_bind, scan,
    scanRecord_reference _ _ c nfcData h]
  rfl

/-! ## The two profiles -/

def bleCarrier (uuid : Vector UInt8 16) : Carrier where
  tnf := 2
  kind := Text.bytes "application/vnd.bluetooth.le.oob"
  id := Text.bytes "0"
  payload := oob uuid
  tnf_range := by decide
  kind_length := by decide
  id_length := by decide
  id_ne := by decide
  payload_length := by simp [oob]

def nfcCarrier : Carrier where
  tnf := 4
  kind := Text.bytes "iso.org:18013:nfc"
  id := Text.bytes "nfc"
  payload := [1, 2, 1, 255, 3, 2, 1, 0]
  tnf_range := by decide
  kind_length := by decide
  id_length := by decide
  id_ne := by decide
  payload_length := by decide

theorem staticHandoverSelect_eq (engagement : List UInt8) (uuid : Vector UInt8 16) : staticHandoverSelect engagement uuid =
    handoverSelect engagement (0x40 ||| (bleCarrier uuid).tnf) (bleCarrier uuid).kind (bleCarrier uuid).id (bleCarrier uuid).payload := by
  have hflags : 0x40 ||| (bleCarrier uuid).tnf = 0x42 := (by decide : (0x40 ||| 2 : UInt8) = 0x42)
  rw [hflags]
  rfl

theorem nfcDataHandoverSelect_eq (engagement : List UInt8) : nfcDataHandoverSelect engagement =
    handoverSelect engagement (0x40 ||| nfcCarrier.tnf) nfcCarrier.kind nfcCarrier.id nfcCarrier.payload := by
  have hflags : 0x40 ||| nfcCarrier.tnf = 0x44 := by decide
  rw [hflags]
  rfl

/-- The role is the one of a peripheral. -/
theorem supports_bleCarrier (uuid : Vector UInt8 16) : supports false false (bleCarrier uuid).record = .ok true := by
  have hround₁ : advertise none (oob uuid) = .ok (some 0, [17, 7] ++ uuid.toList.reverse) := by
    have hlen : (oob uuid).length = 21 := by simp [oob]
    have hindex₀ : (index (oob uuid) 0 : Read UInt8) = .ok 2 := rfl
    have hindex₁ : (index (oob uuid) 1 : Read UInt8) = .ok 0x1c := rfl
    have hrole : roleOf none 0x1c (oob uuid) 2 = .ok (some 0) := rfl
    have htwo : (2 : UInt8).toNat = 2 := rfl
    rw [advertise, hindex₀, ok_bind]
    dsimp only
    rw [htwo, require_pos ⟨by omega, by omega⟩, ok_bind, hindex₁, ok_bind, hrole, ok_bind, require_pos (by decide), ok_bind,
      slice_drop (by omega)]
    rfl
  have hround₂ : advertise (some 0) ([17, 7] ++ uuid.toList.reverse) = .ok (some 0, []) := by
    have hlen : ([17, 7] ++ uuid.toList.reverse).length = 18 := by simp
    have hindex₀ : (index ([17, 7] ++ uuid.toList.reverse) 0 : Read UInt8) = .ok 17 := rfl
    have hindex₁ : (index ([17, 7] ++ uuid.toList.reverse) 1 : Read UInt8) = .ok 7 := rfl
    have hrole : roleOf (some 0) 7 ([17, 7] ++ uuid.toList.reverse) 17 = .ok (some 0) := rfl
    have hsize : (17 : UInt8).toNat = 17 := rfl
    rw [advertise, hindex₀, ok_bind]
    dsimp only
    rw [hsize, require_pos ⟨by omega, by omega⟩, ok_bind, hindex₁, ok_bind, hrole, ok_bind, require_pos (by decide), ok_bind,
      slice_drop (by omega), List.drop_eq_nil_of_le (by omega)]
    rfl
  have hloop : consume advertise_less none (oob uuid) = .ok (some 0) := by
    have hne₁ : oob uuid ≠ [] := List.cons_ne_nil _ _
    have hne₂ : [17, 7] ++ uuid.toList.reverse ≠ [] := List.cons_ne_nil _ _
    rw [consume_round advertise_less hne₁ hround₁, consume_round advertise_less hne₂ hround₂, consume_nil]
  have hkind : ¬((bleCarrier uuid).record.tnf = 4 ∧ (bleCarrier uuid).record.kind = Text.bytes "iso.org:18013:nfc") :=
    fun h => absurd h.1 (by decide : (2 : UInt8) ≠ 4)
  have hble : ¬(false = true ∨ (bleCarrier uuid).record.tnf ≠ 2 ∨
      (bleCarrier uuid).record.kind ≠ Text.bytes "application/vnd.bluetooth.le.oob") := by
    rintro (h | h | h)
    · cases h
    · exact h rfl
    · exact h rfl
  rw [supports, if_neg hkind, if_neg hble]
  show (consume advertise_less none (oob uuid) >>= _) = _
  rw [hloop]
  rfl

theorem supports_nfcCarrier : supports true false nfcCarrier.record = .ok true := by decide +kernel

/-- How a message for a carrier is read: its records, the reference nested in it, and what a validation says. -/
structure Reads (m engagement : List UInt8) (c : Carrier) (nfcData : Bool) : Prop where
  records : records m = .ok (message (Text.bytes "Hs") engagement c)
  reference : Handover.records c.nested = .ok [c.reference]
  refused : ∀ nfcData, validateRequest m nfcData = fail invalid
  request : validateRequest (m.set 4 0x72) nfcData = .ok ()

theorem reads_of_handoverSelect {m engagement : List UInt8} {c : Carrier} {nfcData : Bool}
    (h : handoverSelect engagement (0x40 ||| c.tnf) c.kind c.id c.payload = .ok m) (hs : supports nfcData false c.record = .ok true) :
    Reads m engagement c nfcData := by
  obtain ⟨-, hlen, hselect, hrequest⟩ := handoverSelect_eq_ok h
  exact ⟨hselect, records_reference c, validateRequest_select hselect,
    validateRequest_request (by rw [List.length_set]; exact hlen) hrequest hs⟩

/-- Messages are read as they are written, and any message within its bounds. -/
theorem handover :
    (∀ engagement uuid, (∃ m, staticHandoverSelect engagement uuid = .ok m) ↔ engagement.length ≤ 255) ∧
      (∀ engagement uuid m, staticHandoverSelect engagement uuid = .ok m → Reads m engagement (bleCarrier uuid) false) ∧
      (∀ engagement, (∃ m, nfcDataHandoverSelect engagement = .ok m) ↔ engagement.length ≤ 255) ∧
      (∀ engagement m, nfcDataHandoverSelect engagement = .ok m → Reads m engagement nfcCarrier true) ∧
      (∀ engagement (c : Carrier) m, handoverSelect engagement (0x40 ||| c.tnf) c.kind c.id c.payload = .ok m →
        records m = .ok (message (Text.bytes "Hs") engagement c) ∧ records c.nested = .ok [c.reference]) ∧
      (∀ data result, records data = .ok result → ∃ chunks, List.Forall₂ Chunk result chunks ∧ data = chunks.flatten) ∧
      (∀ data, InRange (records data)) ∧
      ∀ data nfcData, InRange (validateRequest data nfcData) := by
  refine ⟨fun engagement uuid => ?_, fun engagement uuid m h => ?_, fun engagement => ?_, fun engagement m h => ?_,
    fun engagement c m h => ?_, fun data result h => (records_ok h).2, inRange_records, inRange_validateRequest⟩
  · rw [staticHandoverSelect_eq]
    exact handoverSelect_iff (bleCarrier uuid)
  · rw [staticHandoverSelect_eq] at h
    exact reads_of_handoverSelect h (supports_bleCarrier uuid)
  · rw [nfcDataHandoverSelect_eq]
    exact handoverSelect_iff nfcCarrier
  · rw [nfcDataHandoverSelect_eq] at h
    exact reads_of_handoverSelect h supports_nfcCarrier
  · exact ⟨(handoverSelect_eq_ok h).2.2.1, records_reference c⟩

theorem handover_ble : ∃ m, staticHandoverSelect [0xa0] (Vector.replicate 16 0) = .ok m ∧ Reads m [0xa0] (bleCarrier (Vector.replicate 16 0)) false := by
  obtain ⟨m, hm⟩ := (handover.1 [0xa0] (Vector.replicate 16 0)).mpr (by decide)
  exact ⟨m, hm, handover.2.1 _ _ m hm⟩

/-- The validation of a request refuses what the static profile sends. -/
theorem handover_refused : ∃ m, staticHandoverSelect [0xa0] (Vector.replicate 16 0) = .ok m ∧ ∀ nfcData, validateRequest m nfcData ≠ .ok () := by
  obtain ⟨m, hm⟩ := (handoverSelect_iff (bleCarrier (Vector.replicate 16 0))).mpr (by decide : [(0xa0 : UInt8)].length ≤ 255)
  refine ⟨m, (staticHandoverSelect_eq _ _).trans hm, fun nfcData h => ?_⟩
  rw [validateRequest_select (handoverSelect_eq_ok hm).2.2.1] at h
  cases h

end Mikaki.Identity.Handover
