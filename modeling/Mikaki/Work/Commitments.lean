import Mikaki.Work.DisclosureSound
import Mikaki.Work.Preparation

/-!
# What a digest commits to

Requests, disclosures and preparation plans are referred to by their digests.
Where SHA-256 does not collide on the two preimages, equal digests are digests
of one value: every variable part of a preimage stands behind its length or
its count, and every preimage starts with the tag of its kind.
-/

namespace Mikaki

open Checks Framing Hash

/-! ## Requests -/

namespace RequestInput

/-- The texts of a request, in the order they are framed in. -/
def texts : List (WorkRequest → String) :=
  [(·.input.goal), (·.input.acceptance), (·.input.codeRepository), (·.input.baseCommit), (·.input.disclosureDigest),
    (·.input.recipient), (·.input.workload), (·.input.taskRepository), (·.input.adoptionRepository),
    (·.input.adoptionRef), (·.input.expectedHead)]

end RequestInput

namespace WorkRequest

def preimage (self : WorkRequest) : List UInt8 := self.input.preimage self.owner self.ownerEpoch self.policyRevision

theorem branchRef_size {s : String} {x : Unit} (h : branchRef s = .ok x) : s.utf8ByteSize ≤ 256 := by
  simp only [branchRef, denyIf_eq_ok, not_or, Nat.not_lt, gt_iff_lt] at h
  exact h.2.1

theorem text_size {s : String} {n : Nat} (h : text s n = true) : s.utf8ByteSize ≤ n := by
  simp only [Mikaki.text, Bool.and_eq_true, decide_eq_true_eq] at h
  exact h.1.2

variable [Hashes]

theorem texts_size {r : WorkRequest} (h : r.Valid) : ∀ p ∈ RequestInput.texts, (p r).utf8ByteSize < 2 ^ 64 := by
  have i := h.input
  have id : ∀ {s : String}, Id.shape s = true → s.utf8ByteSize < 2 ^ 64 := fun {s} h =>
    Nat.lt_of_le_of_lt (Id.size_le ⟨s, h⟩) (by decide)
  have := text_size i.goal; have := text_size i.acceptance; have := branchRef_size i.adoptionRef
  have := i.baseCommit.1; have := i.expectedHead.1
  obtain ⟨d, hd⟩ := i.disclosureDigest
  have := (Digest.parseHex_ok hd).1
  simp only [RequestInput.texts, List.forall_mem_cons, List.not_mem_nil, false_imp_iff, implies_true, and_true]
  refine ⟨by omega, by omega, id i.codeRepository, by omega, by omega, id i.recipient, id i.workload,
    id i.taskRepository, id i.adoptionRepository, by omega, by omega⟩

theorem reads_preimage : Reads WorkRequest.Valid preimage
    fun r => (r.input, r.owner, r.ownerEpoch, r.policyRevision) := by
  have h := (Reads.const (P := WorkRequest.Valid) (Hash.new "mikaki.work-request.v1"))
    |>.field reads_text (·.input.profile) (fun h => by rw [h.input.profile]; decide)
    |>.field reads_id (·.owner) (fun _ => trivial) |>.field reads_number (·.ownerEpoch) (fun h => stored_lt h.ownerEpoch)
    |>.field reads_number (·.policyRevision) (fun h => stored_lt h.policyRevision.2)
    |>.field reads_text (·.input.requestId) (fun h => Nat.lt_of_le_of_lt (Id.size_le ⟨_, h.input.requestId⟩) (by decide))
    |>.field reads_number (·.input.revision) (fun h => stored_lt h.input.revision.2)
    |>.append (reads_each reads_text RequestInput.texts fun _ h => texts_size h)
    |>.append (Reads.first (reads_countedList reads_text) (·.input.operations) (P := WorkRequest.Valid) fun h => by
      rw [h.input.operations]; exact ⟨by decide, by simp; decide⟩)
    |>.field reads_number (·.input.deadline) (fun h => stored_lt h.input.deadline.2)
  refine h.map fun a b _ _ e => ?_
  obtain ⟨⟨_, _, _, _, _, _, _, _, _, _, _, _, _, _, _, _⟩, _, _, _, _⟩ := a
  obtain ⟨⟨_, _, _, _, _, _, _, _, _, _, _, _, _, _, _, _⟩, _, _, _, _⟩ := b
  simp only [Prod.mk.injEq, RequestInput.texts, List.map_cons, List.map_nil, List.cons.injEq] at e
  simp [e]

/-- Of two valid requests with one preimage, both digests are of that preimage. -/
theorem preimage_inj {r s : WorkRequest} (hr : r.Valid) (hs : s.Valid) (e : r.preimage = s.preimage) : r = s := by
  have h := reads_preimage.eq hr hs e
  simp only [Prod.mk.injEq] at h
  rw [hr.bound, hs.bound, h.1, h.2.1, h.2.2.1, h.2.2.2]

theorem Valid.digest_eq {r : WorkRequest} (h : r.Valid) : r.digest = sha256 r.preimage := congrArg WorkRequest.digest h.bound

end WorkRequest

/-! ## Plans -/

namespace Plan

structure Fits (p : Plan) : Prop where
  ownerEpoch : p.binding.ownerEpoch < 2 ^ 64
  policyRevision : p.binding.policyRevision < 2 ^ 64
  expiresAt : p.binding.expiresAt < 2 ^ 64
  reservedBytes : p.binding.reservedBytes < 2 ^ 64
  sourceIds : p.binding.sourceIds.length < 2 ^ 64 ∧ ∀ s ∈ p.binding.sourceIds, s.utf8ByteSize < 2 ^ 64
  taskNamespace : p.taskNamespace.utf8ByteSize < 2 ^ 64
  snapshotNamespace : p.snapshotNamespace.utf8ByteSize < 2 ^ 64
  taskName : p.taskName.utf8ByteSize < 2 ^ 64
  snapshotName : p.snapshotName.utf8ByteSize < 2 ^ 64

theorem namespaceName_size {s : String} {x : Unit} (h : namespaceName s = .ok x) : s.utf8ByteSize ≤ 63 := by
  simp only [namespaceName, denyIf_eq_ok, not_or, Nat.not_lt, gt_iff_lt] at h
  exact h.2.1

variable [Hashes]

theorem names_size (id : Id) : (names id).1.utf8ByteSize < 2 ^ 64 ∧ (names id).2.utf8ByteSize < 2 ^ 64 := by
  have half : ∀ l : List Char, (String.ofList (l.take 32)).utf8ByteSize ≤ 32 * 4 := fun l => by
    rw [Text.size_ofList]
    refine Nat.le_trans (List.sum_le_card_nsmul _ 4 ?_) ?_
    · simp only [List.mem_map]
      rintro _ ⟨c, -, rfl⟩
      exact c.utf8Size_le_four
    · simp only [List.length_map, List.length_take, Nat.nsmul_eq_mul]
      omega
  have := half (sha256 (Hash.new "mikaki.work-preparation-name.v1" ++ Hash.text id.text)).toHex.toList
  simp only [names, String.utf8ByteSize_append]
  constructor
  · have : "wk-".utf8ByteSize + "-code".utf8ByteSize = 8 := by decide
    omega
  · have : "wk-".utf8ByteSize + "-snapshot".utf8ByteSize = 12 := by decide
    omega

theorem fits {p : Plan} (h : p.validate = .ok ()) : p.Fits := by
  simp only [validate, check_bind_eq_ok, storedNumber_zero_ok, storedNumber_ok, denyIf_eq_ok, not_or, Nat.not_lt,
    gt_iff_lt, Bool.not_eq_true, List.any_eq_false, Decidable.not_not, ne_eq] at h
  obtain ⟨ht, hs, he, hp, hx, hb, -, hl, hids, -, -, -, -, hn⟩ := h
  have ht := namespaceName_size ht; have hs := namespaceName_size hs
  have hn' := names_size p.operationId
  rw [hn] at hn'
  refine ⟨stored_lt he, stored_lt hp.2, stored_lt hx.2, by omega, ⟨by omega, fun s hs => ?_⟩, by omega, by omega, hn'.1,
    hn'.2⟩
  have : Id.shape s = true := by simpa using hids s hs
  exact Nat.lt_of_le_of_lt (Id.size_le ⟨s, this⟩) (by decide)

omit [Hashes] in
theorem reads_preimage : Reads Plan.Fits preimage id := by
  have h := (Reads.const (P := Plan.Fits) (Hash.new "mikaki.work-preparation.v1"))
    |>.field reads_id (·.operationId) (fun _ => trivial) |>.field reads_id (·.binding.owner) (fun _ => trivial)
    |>.field reads_number (·.binding.ownerEpoch) Fits.ownerEpoch
    |>.field reads_number (·.binding.policyRevision) Fits.policyRevision
    |>.field reads_digest (·.binding.policyProjection) (fun _ => trivial)
    |>.field reads_digest (·.binding.disclosure) (fun _ => trivial)
    |>.field reads_number (·.binding.expiresAt) Fits.expiresAt
    |>.field reads_number (·.binding.reservedBytes) Fits.reservedBytes
    |>.field (reads_countedList reads_text) (·.binding.sourceIds) Fits.sourceIds
    |>.field reads_id (·.binding.snapshotRepository) (fun _ => trivial)
    |>.field reads_id (·.taskRepository) (fun _ => trivial) |>.field reads_text (·.taskNamespace) Fits.taskNamespace
    |>.field reads_text (·.snapshotNamespace) Fits.snapshotNamespace |>.field reads_text (·.taskName) Fits.taskName
    |>.field reads_text (·.snapshotName) Fits.snapshotName
  refine h.map fun a b _ _ e => ?_
  obtain ⟨_, ⟨_, _, _, _, _, _, _, _, _⟩, _, _, _, _, _⟩ := a
  obtain ⟨_, ⟨_, _, _, _, _, _, _, _, _⟩, _, _, _, _, _⟩ := b
  simp only [Prod.mk.injEq] at e
  simp [e]

end Plan

/-! ## Every kind -/

theorem ResolvedDisclosure.ext_data {c d : ResolvedDisclosure} (h : c.data = d.data) (hd : c.digest = d.digest) :
    c = d := by
  cases c; cases d; cases h; cases hd; rfl

/-- A value that is referred to by its digest. -/
inductive Committed where
  | request (request : WorkRequest)
  | disclosure (disclosure : ResolvedDisclosure)
  | plan (plan : Plan)

namespace Committed

def preimage : Committed → List UInt8
  | .request r => r.preimage
  | .disclosure d => d.data.preimage
  | .plan p => p.preimage

/-- The tag its preimage starts with. -/
def domain : Committed → String
  | .request _ => "mikaki.work-request.v1"
  | .disclosure d => if d.data.formatVersion = 2 then "mikaki.work-disclosure.v2" else "mikaki.work-disclosure.v1"
  | .plan _ => "mikaki.work-preparation.v1"

theorem preimage_tagged (x : Committed) : ∃ rest, x.preimage = Hash.new x.domain ++ rest := by
  cases x with
  | request r =>
    simp only [preimage, WorkRequest.preimage, RequestInput.preimage, List.append_assoc]
    exact ⟨_, rfl⟩
  | disclosure d =>
    simp only [preimage, Data.preimage, List.append_assoc]
    exact ⟨_, rfl⟩
  | plan p =>
    simp only [preimage, Plan.preimage, List.append_assoc]
    exact ⟨_, rfl⟩

theorem domain_size (x : Committed) : x.domain.utf8ByteSize < 2 ^ 64 := by
  cases x with
  | disclosure d => simp only [domain]; split <;> decide
  | _ => rw [domain]; decide

theorem domain_eq {x y : Committed} (e : x.preimage = y.preimage) : x.domain = y.domain := by
  obtain ⟨u, hu⟩ := x.preimage_tagged
  obtain ⟨v, hv⟩ := y.preimage_tagged
  rw [hu, hv] at e
  exact (reads_text x.domain_size y.domain_size e).1

variable [Hashes]

/-- The digest the program refers to it by. -/
def digest : Committed → Digest
  | .request r => r.digest
  | .disclosure d => d.digest
  | .plan p => p.digest

/-- What every constructor and every restoration of the program checks. -/
def Valid : Committed → Prop
  | .request r => r.Valid
  | .disclosure d => d.Valid
  | .plan p => p.validate = .ok ()

theorem digest_eq {x : Committed} (h : x.Valid) : x.digest = sha256 x.preimage := by
  cases x with
  | request r => exact WorkRequest.Valid.digest_eq h
  | disclosure d => exact h.digest
  | plan p => rfl

theorem preimage_inj {x y : Committed} (hx : x.Valid) (hy : y.Valid) (e : x.preimage = y.preimage) : x = y := by
  have hd := domain_eq e
  cases x with
  | request r =>
    cases y with
    | request s => exact congrArg request (WorkRequest.preimage_inj hx hy e)
    | disclosure d => simp only [domain] at hd; split at hd <;> exact absurd hd (by decide)
    | plan p => exact absurd hd (by simp only [domain]; decide)
  | disclosure c =>
    cases y with
    | request s => simp only [domain] at hd; split at hd <;> exact absurd hd (by decide)
    | disclosure d =>
      obtain ⟨hc, hcd⟩ : c.Valid := hx
      obtain ⟨hd, hdd⟩ : d.Valid := hy
      have h : c.data = d.data := Data.reads_preimage.eq (Data.fits hc) (Data.fits hd) e
      rw [ResolvedDisclosure.ext_data h (by rw [hcd, hdd, h])]
    | plan p => simp only [domain] at hd; split at hd <;> exact absurd hd (by decide)
  | plan p =>
    cases y with
    | request s => exact absurd hd (by simp only [domain]; decide)
    | disclosure d => simp only [domain] at hd; split at hd <;> exact absurd hd (by decide)
    | plan q => exact congrArg plan (Plan.reads_preimage.eq (Plan.fits hx) (Plan.fits hy) e)

/-- Equal digests are digests of one value of one kind, where SHA-256 does not collide on the two preimages. -/
theorem digest_commits (x y : Committed) (hx : x.Valid) (hy : y.Valid)
    (free : Set.InjOn sha256 {x.preimage, y.preimage}) (h : x.digest = y.digest) : x = y := by
  rw [digest_eq hx, digest_eq hy] at h
  exact preimage_inj hx hy (free (Set.mem_insert _ _) (Set.mem_insert_of_mem _ rfl) h)

end Committed

open Committed in
/-- A request that was validated, and one preimage on which SHA-256 cannot collide. -/
theorem Committed.digest_commits_request : (request Sample.request).Valid ∧
    Set.InjOn sha256 {(request Sample.request).preimage, (request Sample.request).preimage} ∧
    request Sample.request = request Sample.request := by
  have hv : (request Sample.request).Valid := Sample.request_valid
  have free : Set.InjOn sha256 {(request Sample.request).preimage, (request Sample.request).preimage} := by
    rw [Set.pair_eq_singleton]
    exact Set.injOn_singleton _ _
  exact ⟨hv, free, digest_commits _ _ hv hv free rfl⟩

end Mikaki
