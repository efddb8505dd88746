import Mikaki.Work.BasicSound

/-!
# Stored records: the envelope

Every record is `{"version":1,"kind":…,"data":…}`, at most 32768 bytes. Reading
one back refuses another version, another kind and every text that is not the
JSON of its data type. The reading of a data type is a partial function on
JSON values; `Json.fields` is the closed object every type is stored as.
-/

namespace Mikaki

open Checks

def maxRecordBytes : Nat := 32768

namespace Records

/-- What `derive(Deserialize)` reads for the field types of a record. -/
def id (v : Json.Value) : Option Id := v.asStr.bind fun s => (Id.parse s).toOption
def digest (v : Json.Value) : Option Digest := v.asStr.bind fun s => (Digest.parseHex s).toOption
def string (v : Json.Value) : Option String := v.asStr
def u64 (v : Json.Value) : Option Nat := v.asNum (2 ^ 64)
def strings (v : Json.Value) : Option (List String) := v.asArr string

/-- The value of one field of a closed record, read by `read`. -/
def field {α : Type} (f : String → Option Json.Value) (name : String) (read : Json.Value → Option α) : Option α :=
  (f name).bind read

def envelope (kind : String) (data : Json.Value) : Json.Value :=
  .obj [("version", .num 1), ("kind", .str kind), ("data", data)]

def encode (kind : String) (data : Json.Value) : Except Denied String := do
  let text := (envelope kind data).render
  denyIf (text.utf8ByteSize > maxRecordBytes) .invalidInput
  return text

structure Record (α : Type) where
  version : Nat
  kind : String
  data : α

def record {α : Type} (read : Json.Value → Option α) (v : Json.Value) : Option (Record α) := do
  let f ← Json.fields ["version", "kind", "data"] v
  return { version := ← field f "version" (·.asNum (2 ^ 32)), kind := ← field f "kind" string, data := ← field f "data" read }

def decode {α : Type} (kind : String) (read : Json.Value → Option α) (text : String) : Except Denied α := do
  denyIf (text.utf8ByteSize > maxRecordBytes) .invalidInput
  match (Json.parse text).bind (record read) with
  | none => .error .invalidInput
  | some r =>
    denyIf (r.version ≠ 1 ∨ r.kind ≠ kind) .invalidInput
    return r.data

/-- The initial revision is 1; the one irreversible revocation makes it 2. -/
def state (revision : Nat) (revoked : Bool) : Except Denied Unit :=
  denyIf ((revision, revoked) ≠ (1, false) ∧ (revision, revoked) ≠ (2, true)) .invalidInput

/-! ## What encoding and decoding do -/

section
variable {α β : Type} {names : List String} {v : Json.Value} {ms : List (String × Json.Value)} {r : Option α}
  {rest : (String → Option Json.Value) → Option α}

theorem some_bind (a : α) (g : α → Option β) : (some a >>= g) = g a := rfl

theorem bind_eq_some {x : Option α} {g : α → Option β} {b : β} : (x >>= g) = some b ↔ ∃ a, x = some a ∧ g a = some b :=
  Option.bind_eq_some_iff

/-- The fields of an object are its members: every name reads its own value. -/
def FieldsOf (ms : List (String × Json.Value)) (f : String → Option Json.Value) : Prop :=
  ∀ m ∈ ms, ∀ {α : Type} (read : Json.Value → Option α), field f m.1 read = read m.2

theorem lookup_fields (hn : (ms.map Prod.fst).Nodup) : FieldsOf ms fun k => ms.lookup k := by
  intro m hm α read
  rw [field]
  induction ms with
  | nil => cases hm
  | cons n ms ih =>
    rw [List.map_cons, List.nodup_cons] at hn
    rw [List.lookup_cons]
    rcases List.mem_cons.mp hm with rfl | hm
    · rw [beq_self_eq_true]; rfl
    · have hne : m.1 ≠ n.1 := fun e => hn.1 (e ▸ List.mem_map_of_mem hm)
      rw [beq_false_of_ne hne]
      exact ih hn.2 hm

/-- A closed object with exactly the named fields is read by looking its fields up. -/
theorem fields_obj (h : ms.map Prod.fst = names) (hn : names.Nodup) :
    Json.fields names (.obj ms) = some fun k => ms.lookup k := by
  subst h
  exact if_pos ⟨hn, fun k hk => hk⟩

theorem fields_bind (hv : v = .obj ms) (h : ms.map Prod.fst = names) (hn : names.Nodup)
    (hr : ∀ f, FieldsOf ms f → rest f = r) : (Json.fields names v >>= rest) = r := by
  rw [hv, fields_obj h hn]
  exact hr _ (lookup_fields (h ▸ hn))

theorem fields_inv (hr : (Json.fields names v >>= rest) = r) (hv : v = .obj ms) (h : ms.map Prod.fst = names)
    (hn : names.Nodup) : ∃ f, FieldsOf ms f ∧ rest f = r := by
  rw [hv, fields_obj h hn] at hr
  exact ⟨_, lookup_fields (h ▸ hn), hr⟩

end

section
variable {α : Type} {read : Json.Value → Option α} {kind : String} {data : Json.Value} {x : α} {text : String}

theorem encode_ok : encode kind data = .ok text ↔
    (envelope kind data).render.utf8ByteSize ≤ maxRecordBytes ∧ (envelope kind data).render = text := by
  simp only [encode, check_bind_eq_ok, denyIf_eq_ok, Nat.not_lt, gt_iff_lt, pure_eq_ok]

theorem encode_size (h : encode kind data = .ok text) : text.utf8ByteSize ≤ maxRecordBytes := by
  obtain ⟨hs, rfl⟩ := encode_ok.mp h
  exact hs

/-- What is no wider than something that is stored can be stored. -/
theorem encode_mono {data' : Json.Value} (he : encode kind data = .ok text)
    (h : Json.width data'.chars ≤ Json.width data.chars) : ∃ text', encode kind data' = .ok text' := by
  obtain ⟨hs, -⟩ := encode_ok.mp he
  refine ⟨_, encode_ok.mpr ⟨Nat.le_trans ?_ hs, rfl⟩⟩
  simp only [Json.size_render, envelope, Json.width_obj_cons, List.map_cons, List.map_nil, Json.valuesWidth,
    List.sum_cons, List.sum_nil]
  omega

theorem record_envelope (hr : read data = some x) :
    record read (envelope kind data) = some { version := 1, kind, data := x } := by
  refine fields_bind rfl rfl (by decide) fun f hm => ?_
  simp only [FieldsOf, List.forall_mem_cons] at hm
  simp only [hm, hr, Json.Value.asNum, string, Json.Value.asStr, some_bind]
  rfl

theorem record_envelope_none (hr : read data = none) : record read (envelope kind data) = none := by
  refine fields_bind rfl rfl (by decide) fun f hm => ?_
  simp only [FieldsOf, List.forall_mem_cons] at hm
  simp only [hm, hr, Json.Value.asNum, string, Json.Value.asStr, some_bind]
  rfl

/-- A record that was encoded decodes to what its data reads as. -/
theorem decode_encode (he : encode kind data = .ok text) (hr : read data = some x) :
    decode kind read text = .ok x := by
  obtain ⟨hs, rfl⟩ := encode_ok.mp he
  have hf : record read (envelope kind data) = some { version := 1, kind, data := x } := record_envelope hr
  have hd : denyIf ((envelope kind data).render.utf8ByteSize > maxRecordBytes) Denied.invalidInput = .ok () :=
    denyIf_eq_ok.mpr (Nat.not_lt.mpr hs)
  simp only [decode, hd, ok_bind, Json.parse_render, Option.bind_some, hf]
  simp [denyIf, bind, Except.bind, pure, Except.pure]

/-- What a record that was encoded decodes to is what its data reads as. -/
theorem decode_encode_inv (he : encode kind data = .ok text) (hd : decode kind read text = .ok x) :
    read data = some x := by
  obtain ⟨-, rfl⟩ := encode_ok.mp he
  simp only [decode, check_bind_eq_ok, Json.parse_render, Option.bind_some] at hd
  obtain ⟨-, hd⟩ := hd
  cases hr : read data with
  | none => rw [record_envelope_none hr] at hd; cases hd
  | some y =>
    simp only [record_envelope hr, check_bind_eq_ok, pure_eq_ok] at hd
    rw [hd.2]

/-- What decodes is what some JSON value reads as. -/
theorem decode_ok (h : decode kind read text = .ok x) : ∃ v, read v = some x := by
  simp only [decode, check_bind_eq_ok] at h
  obtain ⟨-, h⟩ := h
  split at h
  · cases h
  · rename_i r hr
    simp only [check_bind_eq_ok, pure_eq_ok] at h
    obtain ⟨-, rfl⟩ := h
    obtain ⟨_, -, hr⟩ := Option.bind_eq_some_iff.mp hr
    simp only [record, Option.bind_eq_bind, Option.bind_eq_some_iff, Option.pure_def, Option.some.injEq] at hr
    obtain ⟨_, -, _, -, _, -, _, hd, rfl⟩ := hr
    obtain ⟨v, -, hv⟩ := Option.bind_eq_some_iff.mp hd
    exact ⟨v, hv⟩

theorem state_ok {revision : Nat} {revoked : Bool} {u : Unit} :
    state revision revoked = .ok u ↔ (revision = 1 ∧ revoked = false) ∨ (revision = 2 ∧ revoked = true) := by
  cases revoked <;> simp [state]

end

@[simp] theorem id_text (i : Id) : id (.str i.text) = some i := by
  simp [id, Json.Value.asStr, Except.toOption]

@[simp] theorem digest_toHex (d : Digest) : digest (.str d.toHex) = some d := by
  simp [digest, Json.Value.asStr, Except.toOption]

@[simp] theorem string_str (s : String) : string (.str s) = some s := rfl

theorem u64_num {n : Nat} (h : n < 2 ^ 64) : u64 (.num n) = some n := if_pos h

/-- Reading a stored number back fails where the number is too large and is exact otherwise. -/
theorem u64_inv {n m : Nat} (h : u64 (.num n) = some m) : m = n := by
  simp only [u64, Json.Value.asNum] at h
  split at h
  · exact (Option.some.inj h).symm
  · cases h

@[simp] theorem strings_arr (l : List String) : strings (.arr (l.map .str)) = some l := by
  show List.mapM string (l.map Json.Value.str) = some l
  induction l with
  | nil => rfl
  | cons s l ih => simp [ih]

/-- The envelope adds little to the size of its data. -/
theorem envelope_size (kind : String) (data : Json.Value) {k n : Nat}
    (hk : Json.width (Json.Value.str kind).chars ≤ k) (hd : Json.width data.chars ≤ n) :
    (envelope kind data).render.utf8ByteSize ≤ n + k + 30 := by
  rw [Json.size_render, envelope]
  refine Nat.le_trans (Json.width_obj _) ?_
  have h1 : Json.width (Json.Value.num 1).chars = 1 := by decide
  simp only [List.map_cons, List.map_nil, Json.keysWidth, Json.valuesWidth, List.sum_cons, List.sum_nil, h1]
  have hv : Json.width (Json.literal "version") = 9 := by decide
  have hk' : Json.width (Json.literal "kind") = 6 := by decide
  have hd' : Json.width (Json.literal "data") = 6 := by decide
  simp only [hv, hk', hd']
  omega

end Records

end Mikaki
