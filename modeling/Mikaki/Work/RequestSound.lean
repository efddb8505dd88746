import Mikaki.Work.Request

/-!
# A work request is read back as it was stored

`WorkRequest.Valid` is what both constructors establish: validation of the
owner's input and restoration of a stored row.
-/

namespace Mikaki

open Checks

namespace RequestInput

/-- What the shape check admits. -/
structure Shape (i : RequestInput) : Prop where
  profile : i.profile = Mikaki.profile
  operations : i.operations = [submit]
  revision : 0 < i.revision ∧ i.revision ≤ maxStoredInteger
  goal : text i.goal 4096 = true
  acceptance : text i.acceptance 8192 = true
  requestId : Id.shape i.requestId = true
  codeRepository : Id.shape i.codeRepository = true
  recipient : Id.shape i.recipient = true
  workload : Id.shape i.workload = true
  taskRepository : Id.shape i.taskRepository = true
  adoptionRepository : Id.shape i.adoptionRepository = true
  separate : i.taskRepository ≠ i.codeRepository ∧ i.taskRepository ≠ i.adoptionRepository
  baseCommit : (i.baseCommit.utf8ByteSize = 40 ∨ i.baseCommit.utf8ByteSize = 64) ∧ lowerHex i.baseCommit = true
  expectedHead : (i.expectedHead.utf8ByteSize = 40 ∨ i.expectedHead.utf8ByteSize = 64) ∧ lowerHex i.expectedHead = true
  sameLength : i.baseCommit.utf8ByteSize = i.expectedHead.utf8ByteSize
  adoptionRef : branchRef i.adoptionRef = .ok ()
  disclosureDigest : ∃ d, Digest.parseHex i.disclosureDigest = .ok d
  deadline : 0 < i.deadline ∧ i.deadline ≤ maxStoredInteger

theorem shape_of_ok {i : RequestInput} {x : Unit} (h : i.validateShape = .ok x) : i.Shape := by
  simp only [validateShape, bind_eq_ok, exists_unit, denyIf_eq_ok, storedNumber_ok, gitOid_ok, checkAll_eq_ok,
    Id.check_ok, List.forall_mem_cons, not_or, Decidable.not_not, Bool.not_eq_false] at h
  obtain ⟨⟨hp, ho⟩, hr, ⟨hg, ha⟩, ⟨h₁, h₂, h₃, h₄, h₅, h₆, -⟩, hs, _, ⟨hb, -⟩, _, ⟨he, -⟩, hl, href, d, hd, hdl⟩ := h
  exact { profile := hp, operations := ho, revision := hr, goal := hg, acceptance := ha, requestId := h₁,
          codeRepository := h₂, recipient := h₃, workload := h₄, taskRepository := h₅, adoptionRepository := h₆,
          separate := hs, baseCommit := hb, expectedHead := he, sameLength := hl, adoptionRef := href,
          disclosureDigest := ⟨d, hd⟩, deadline := hdl }

/-! ## The record -/

theorem read_toJson (i : RequestInput) (hr : i.revision < 2 ^ 64) (hd : i.deadline < 2 ^ 64) :
    read i.toJson = some i := by
  refine Records.fields_bind rfl rfl (by decide) fun f hm => ?_
  simp only [Records.FieldsOf, List.forall_mem_cons] at hm
  simp only [hm, Records.some_bind, Records.string_str, Records.strings_arr,
    Records.u64_num hr, Records.u64_num hd]
  rfl

/-- Free text is at most doubled by the escapes. -/
theorem text_width {s : String} {n : Nat} (h : text s n = true) :
    Json.width (Json.Value.str s).chars ≤ 2 + 2 * n := by
  simp only [text, Bool.and_eq_true, decide_eq_true_eq, Bool.not_eq_true', List.any_eq_false] at h
  obtain ⟨⟨-, hs⟩, hc⟩ := h
  rw [Json.Value.chars]
  refine Nat.le_trans (Json.literal_le fun c hm => short_of_ge ?_) (by omega)
  have := hc c hm
  simp only [Text.isControl, Bool.and_eq_true, Bool.or_eq_true, decide_eq_true_eq,
    Bool.or_eq_false_iff, beq_eq_false_iff_ne, not_and_or, not_or, ne_eq, Decidable.not_not] at this
  rcases this with h | h | h
  · exact .inl (by omega)
  · exact .inr (.inl h)
  · exact .inr (.inr h)

/-- A branch name has no control byte; quotes are what may still be escaped. -/
theorem branchRef_width {s : String} {x : Unit} (h : branchRef s = .ok x) :
    Json.width (Json.Value.str s).chars ≤ 514 := by
  simp only [branchRef, denyIf_eq_ok, not_or, Bool.not_eq_true, List.any_eq_false] at h
  obtain ⟨-, hs, -, -, hb, -⟩ := h
  rw [Json.Value.chars]
  refine Nat.le_trans (Json.literal_le fun c hm => short_of_ge (.inl ?_)) (by omega)
  by_contra hlt
  have := hb _ (Text.ascii_mem_bytes hm (by omega))
  simp only [Bool.or_eq_false_iff, decide_eq_false_iff_not, UInt8.le_iff_toNat_le, UInt8.reduceToNat,
    toNat_ofNat_of_lt (show c.toNat < 128 by omega)] at this
  omega

theorem id_width {s : String} (h : Id.shape s = true) : Json.width (Json.Value.str s).chars ≤ 130 := Id.width_le ⟨s, h⟩

theorem oid_width {s : String} (h : (s.utf8ByteSize = 40 ∨ s.utf8ByteSize = 64) ∧ lowerHex s = true) :
    Json.width (Json.Value.str s).chars ≤ 66 := by
  rw [lowerHex_width h.2]; omega

theorem toJson_width {i : RequestInput} (h : i.Shape) : Json.width i.toJson.chars ≤ 26700 := by
  obtain ⟨d, hd⟩ := h.disclosureDigest
  obtain ⟨hd, hx⟩ := Digest.parseHex_ok hd
  have := id_width h.requestId; have := id_width h.codeRepository; have := id_width h.recipient
  have := id_width h.workload; have := id_width h.taskRepository; have := id_width h.adoptionRepository
  have := oid_width h.baseCommit; have := oid_width h.expectedHead; have := oid_width ⟨.inr hd, hx⟩
  have := text_width h.goal; have := text_width h.acceptance; have := branchRef_width h.adoptionRef
  have := stored_width h.revision.2; have := stored_width h.deadline.2
  have : Json.width (Json.Value.str i.profile).chars ≤ 30 := by rw [h.profile]; decide
  have : Json.width (Json.Value.arr (i.operations.map .str)).chars ≤ 30 := by rw [h.operations]; decide
  have hk : Json.keysWidth names ≤ 300 := by decide
  refine Nat.le_trans (Json.width_obj _) ?_
  simp only [names] at hk
  simp only [List.map_cons, List.map_nil, Json.valuesWidth, List.sum_cons, List.sum_nil]
  omega

end RequestInput

namespace WorkRequest

variable [Hashes]

structure Valid (r : WorkRequest) : Prop where
  shape : r.input.validateShape = .ok ()
  ownerEpoch : r.ownerEpoch ≤ maxStoredInteger
  policyRevision : 0 < r.policyRevision ∧ r.policyRevision ≤ maxStoredInteger
  bound : r = r.input.bind r.owner r.ownerEpoch r.policyRevision

theorem validate_ok {i : RequestInput} {s : OwnerSession} {e : Environment} {r : WorkRequest} :
    i.validate s e = .ok r ↔ s.check e = .ok () ∧ i.validateShape = .ok () ∧
      deadline e.now i.deadline maxWorkSeconds = .ok () ∧ i.bind s.id s.epoch e.policyRevision = r := by
  simp only [RequestInput.validate, check_bind_eq_ok, pure_eq_ok]

theorem validate_valid {i : RequestInput} {s : OwnerSession} {e : Environment} {r : WorkRequest}
    (h : i.validate s e = .ok r) : r.Valid := by
  obtain ⟨hc, hs, -, rfl⟩ := validate_ok.mp h
  obtain ⟨hp, -⟩ := Environment.checkOwner_ok.mp (OwnerSession.check_ok.mp hc).1
  exact ⟨hs, s.stored.1, hp, rfl⟩

theorem restore_valid {text : String} {r : WorkRequest} (h : restoreAuthorityRecord text = .ok r) : r.Valid := by
  simp only [restoreAuthorityRecord, bind_eq_ok, exists_unit, storedNumber_ok, storedNumber_zero_ok, denyIf_eq_ok,
    pure_eq_ok] at h
  obtain ⟨raw, -, hs, he, hp, -, rfl⟩ := h
  exact ⟨hs, he, hp, rfl⟩

section
variable {r : WorkRequest}

theorem Valid.input (h : r.Valid) : r.input.Shape := RequestInput.shape_of_ok h.shape

theorem read_toJson (h : r.Valid) : read r.toJson = some r := by
  have hi := RequestInput.read_toJson r.input (stored_lt h.input.revision.2) (stored_lt h.input.deadline.2)
  refine Records.fields_bind rfl rfl (by decide) fun f hm => ?_
  simp only [Records.FieldsOf, List.forall_mem_cons] at hm
  simp only [hm, Records.some_bind, Records.id_text, Records.digest_toHex, hi, Records.u64_num
    (stored_lt h.ownerEpoch), Records.u64_num (stored_lt h.policyRevision.2)]
  rfl

theorem record_size (h : r.Valid) : (Records.envelope "request" r.toJson).render.utf8ByteSize ≤ maxRecordBytes := by
  have := RequestInput.toJson_width h.input
  have := r.owner.width_le
  have := stored_width h.ownerEpoch
  have := stored_width h.policyRevision.2
  have := r.digest.width
  have hk : Json.keysWidth ["input", "owner", "owner_epoch", "policy_revision", "digest"] ≤ 100 := by decide
  have : Json.width r.toJson.chars ≤ 27100 := by
    refine Nat.le_trans (Json.width_obj _) ?_
    simp only [List.map_cons, List.map_nil, Json.valuesWidth, List.sum_cons, List.sum_nil]
    omega
  have := Records.envelope_size "request" r.toJson (show _ ≤ 20 by decide) this
  simp only [maxRecordBytes]; omega

/-- A valid request is stored and read back. -/
theorem restore_record (h : r.Valid) : ∃ text, r.authorityRecord = .ok text ∧ restoreAuthorityRecord text = .ok r := by
  have he : r.authorityRecord = .ok _ := Records.encode_ok.mpr ⟨record_size h, rfl⟩
  refine ⟨_, he, ?_⟩
  have hp : storedNumber r.policyRevision false = .ok () := storedNumber_ok.mpr h.policyRevision
  have ho : storedNumber r.ownerEpoch true = .ok () := storedNumber_zero_ok.mpr h.ownerEpoch
  have hb : denyIf (r.digest ≠ r.digest) Denied.reviewMismatch = .ok () := denyIf_eq_ok.mpr fun h => h rfl
  rw [restoreAuthorityRecord, Records.decode_encode he (read_toJson h), ok_bind, h.shape, ok_bind, ho, ok_bind, hp,
    ok_bind]
  simp only [← h.bound, hb, ok_bind]
  rfl

end

end WorkRequest

/-! ## One request, validated -/

namespace Sample

def owner : Id := ⟨"owner-1", by decide⟩
def client : Id := ⟨"client-1", by decide⟩
def workload : Id := ⟨"workload-1", by decide⟩
def code : Id := ⟨"code-1", by decide⟩
def taskId : Id := ⟨"task-1", by decide⟩
def snapshotId : Id := ⟨"snapshot-1", by decide⟩
def session : OwnerSession := { id := owner, epoch := 3, expiresAt := 9000, stored := by decide }
def environment : Environment :=
  { owner := { id := owner, epoch := 3, active := true, stored := by decide }, policyRevision := 7, now := 1000 }

def oid (c : Char) : String := String.ofList (List.replicate 40 c)
def hash (n : UInt8) : Digest := ⟨List.replicate 32 n, List.length_replicate⟩

def input : RequestInput :=
  { profile, requestId := "request-1", revision := 1, goal := "Fix the \"parser\"\n", acceptance := "tests\tpass"
    codeRepository := "code-1", baseCommit := oid 'a', disclosureDigest := (hash 5).toHex, recipient := "client-1"
    workload := "workload-1", taskRepository := "task-1", adoptionRepository := "code-1"
    adoptionRef := "refs/heads/main", expectedHead := oid 'b', operations := [submit], deadline := 4000 }

def request : WorkRequest := input.bind owner 3 7

theorem session_checked : session.check environment = .ok () := by decide

theorem request_validated : input.validate session environment = .ok request :=
  WorkRequest.validate_ok.mpr ⟨session_checked, by decide +kernel, by decide, rfl⟩

theorem request_valid : request.Valid := WorkRequest.validate_valid request_validated

end Sample

end Mikaki
