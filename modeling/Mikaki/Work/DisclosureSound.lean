import Mikaki.Work.Disclosure

/-!
# What a validated disclosure holds

Validation bounds every part of a disclosure, so each framed part is read back
from the preimage, and the preimage determines the data.
-/

namespace Mikaki

open Checks Framing

/-! ## Bounds -/

theorem path_size {s : String} (h : path s = .ok ()) : s.utf8ByteSize ≤ 256 := by
  simp only [path, denyIf_eq_ok, not_or, Nat.not_lt, gt_iff_lt] at h
  exact h.2.1

theorem oid_size {s : String} {n : Nat} (h : oid s n = .ok ()) : s.utf8ByteSize ≤ 64 := by
  simp only [oid, bind_eq_ok, gitOid_ok, denyIf_eq_ok] at h
  obtain ⟨_, ⟨⟨h, -⟩, -⟩, -⟩ := h
  omega

theorem snapshotPath_size {index : Nat} (h : index < 4) (s : String) :
    (snapshotPath index s).utf8ByteSize = 11 + s.utf8ByteSize := by
  have hi : ∀ i < 4, ("context/" ++ (if i < 10 then "0" else "") ++ toString i ++ "/").utf8ByteSize = 11 := by decide
  rw [snapshotPath, String.utf8ByteSize_append, hi index h]

structure File.Fits (f : File) : Prop where
  path : f.path.utf8ByteSize < 2 ^ 64
  snapshotPath : f.snapshotPath.utf8ByteSize < 2 ^ 64
  blob : f.blob.utf8ByteSize < 2 ^ 64
  mode : f.mode.utf8ByteSize < 2 ^ 64
  bytes : f.bytes < 2 ^ 64

structure Context.Fits (c : Context) : Prop where
  commit : c.commit.utf8ByteSize < 2 ^ 64
  tree : c.tree.utf8ByteSize < 2 ^ 64
  files : c.files.length < 2 ^ 64 ∧ ∀ f ∈ c.files, f.Fits

structure SourceBinding.Fits (s : SourceBinding) : Prop where
  sourceRevision : s.sourceRevision < 2 ^ 64
  accessRevision : s.accessRevision < 2 ^ 64
  role : s.role.utf8ByteSize < 2 ^ 64

structure Data.Fits (d : Data) : Prop where
  ownerEpoch : d.ownerEpoch < 2 ^ 64
  policyRevision : d.policyRevision < 2 ^ 64
  expiresAt : d.expiresAt < 2 ^ 64
  commit : d.code.commit.utf8ByteSize < 2 ^ 64
  tree : d.code.tree.utf8ByteSize < 2 ^ 64
  commits : d.code.commits < 2 ^ 64
  objects : d.code.objects < 2 ^ 64
  objectBytes : d.code.objectBytes < 2 ^ 64
  headFiles : d.code.headFiles < 2 ^ 64
  contexts : d.contexts.length < 2 ^ 64 ∧ ∀ c ∈ d.contexts, c.Fits
  snapshotCommit : d.snapshot.commit.utf8ByteSize < 2 ^ 64
  snapshotTree : d.snapshot.tree.utf8ByteSize < 2 ^ 64
  selectedBytes : d.selectedBytes < 2 ^ 64
  format : (d.formatVersion = 1 ∧ d.registeredSources = [] ∧ d.policyProjection = none) ∨
    (d.formatVersion = 2 ∧ d.policyProjection ≠ none ∧ d.registeredSources.length < 2 ^ 64 ∧
      ∀ s ∈ d.registeredSources, s.Fits)

theorem Data.checkFile_fits {length index : Nat} {f : File} (hi : index < 4) (h : checkFile length index f = .ok ()) :
    f.Fits := by
  simp only [checkFile, check_bind_eq_ok, denyIf_eq_ok, not_or, Decidable.not_not, Nat.not_lt, gt_iff_lt, ne_eq] at h
  obtain ⟨hp, hb, hn, hm, hs⟩ := h
  have hp := path_size hp
  have hb := oid_size hb
  have hs : f.snapshotPath.utf8ByteSize ≤ 267 := by
    rw [hs, snapshotPath_size hi]; omega
  refine ⟨by omega, by omega, by omega, ?_, by omega⟩
  by_cases h : f.mode = "100644"
  · rw [h]; decide
  · have hm : f.mode = "100755" := Decidable.not_not.mp fun h' => hm ⟨h, h'⟩
    rw [hm]; decide

theorem Data.checkContext_fits {d : Data} {length index : Nat} {c : Context} (hi : index < 4)
    (hn : c.files.length < 2 ^ 64) (h : d.checkContext length c index = .ok ()) : c.Fits := by
  simp only [checkContext, check_bind_eq_ok, checkAll_eq_ok] at h
  obtain ⟨hc, ht, -, hf⟩ := h
  have hc := oid_size hc
  have ht := oid_size ht
  exact ⟨by omega, by omega, hn, fun f hm => checkFile_fits hi (hf f hm)⟩

theorem contextRole_size {s : String} (h : contextRole s = true) : s.utf8ByteSize < 2 ^ 64 := by
  simp only [contextRole, Bool.or_eq_true, beq_iff_eq] at h
  rcases h with rfl | rfl <;> decide

theorem Data.checkSource_fits {index : Nat} {s : SourceBinding} {id : Id} (h : checkSource index s id = .ok ()) :
    s.Fits := by
  simp only [checkSource, check_bind_eq_ok, storedNumber_ok, denyIf_eq_ok, not_or] at h
  obtain ⟨hs, ha, -, hr⟩ := h
  refine ⟨stored_lt hs.2, stored_lt ha.2, ?_⟩
  by_cases hi : index = 0
  · rw [if_pos hi, ne_eq, Decidable.not_not] at hr
    rw [hr]; decide
  · rw [if_neg hi, Bool.not_eq_false] at hr
    exact contextRole_size hr

theorem Data.checkFormat_ok {d : Data} (h : d.checkFormat = .ok ()) :
    (d.formatVersion = 1 ∧ d.registeredSources = [] ∧ d.policyProjection = none) ∨
    (d.formatVersion = 2 ∧ d.registeredSources.length = 1 + d.contexts.length ∧ d.policyProjection ≠ none ∧
      ∀ s ∈ d.registeredSources, s.Fits) := by
  unfold checkFormat at h
  by_cases h₁ : d.formatVersion = 1 ∧ d.registeredSources = [] ∧ d.policyProjection = none
  · exact .inl h₁
  rw [if_neg h₁] at h
  split at h
  · rename_i h₂
    obtain ⟨hv, hl, hp⟩ := h₂
    refine .inr ⟨hv, hl, hp, fun s hs => ?_⟩
    obtain ⟨i, hi, rfl⟩ := List.mem_iff_getElem.mp hs
    have hz : i < (d.registeredSources.zip d.sourceIds).length := by
      simp [sourceIds]; omega
    have hm := checkAll_eq_ok.mp h ((d.registeredSources.zip d.sourceIds)[i], i) (by
      rw [List.mem_zipIdx_iff_getElem?]; exact List.getElem?_eq_getElem hz)
    simp only [List.getElem_zip] at hm
    exact checkSource_fits hm
  · cases h

theorem Data.fits {d : Data} (h : d.validate = .ok ()) : d.Fits := by
  simp only [validate, checkFacts, bind_eq_ok, exists_unit, storedNumber_ok, storedNumber_zero_ok, gitOid_ok,
    denyIf_eq_ok, checkAll_eq_ok, not_or, Nat.not_lt, gt_iff_lt, ne_eq, Decidable.not_not] at h
  obtain ⟨hf, he, hp, hx, commit, ⟨⟨hcs, -⟩, rfl⟩, ht, hsc, hst, ⟨-, hcm, -, ho, hob, hh, -, hn, -⟩, hc, hcount, hb, hsel⟩ := h
  have ht := oid_size ht; have hsc := oid_size hsc; have hst := oid_size hst
  have hfit : ∀ c ∈ d.contexts, c.Fits := fun c hm => by
    obtain ⟨i, hi, rfl⟩ := List.mem_iff_getElem.mp hm
    have hlen : d.contexts[i].files.length ≤ (d.contexts.map (·.files.length)).sum :=
      List.le_sum_of_mem (List.mem_map_of_mem hm)
    have hm : (d.contexts[i], i) ∈ d.contexts.zipIdx := by
      rw [List.mem_zipIdx_iff_getElem?]; exact List.getElem?_eq_getElem hi
    exact checkContext_fits (by omega) (by omega) (hc _ hm)
  refine ⟨stored_lt he, stored_lt hp.2, stored_lt hx.2, by omega, by omega, by omega, by omega, by omega, by omega,
    ⟨by omega, hfit⟩, by omega, by omega, by omega, ?_⟩
  rcases checkFormat_ok hf with hf | ⟨hv, hl, hp, hs⟩
  · exact .inl hf
  · exact .inr ⟨hv, hp, by omega, hs⟩

/-! ## What the preimage determines -/

namespace Data

open Hash

theorem reads_file : Reads File.Fits framedFile id := by
  have h := Reads.first reads_text File.path File.Fits.path
    |>.field reads_text File.snapshotPath File.Fits.snapshotPath |>.field reads_text File.blob File.Fits.blob
    |>.field reads_text File.mode File.Fits.mode |>.field reads_number File.bytes File.Fits.bytes
    |>.field reads_digest File.sha256 fun _ => trivial
  refine h.map fun a b _ _ e => ?_
  cases a; cases b
  simp only [Prod.mk.injEq] at e
  simp [e]

theorem reads_context : Reads Context.Fits framedContext id := by
  have h := Reads.first reads_id Context.repository (P := Context.Fits) (fun _ => trivial)
    |>.field reads_text Context.commit Context.Fits.commit |>.field reads_text Context.tree Context.Fits.tree
    |>.field (reads_countedList reads_file) Context.files Context.Fits.files
  refine h.map fun a b _ _ e => ?_
  cases a; cases b
  simp only [Prod.mk.injEq] at e
  simp [e]

theorem reads_source : Reads SourceBinding.Fits framedSource id := by
  have h := Reads.first reads_id SourceBinding.sourceId (P := SourceBinding.Fits) (fun _ => trivial)
    |>.field reads_number SourceBinding.sourceRevision SourceBinding.Fits.sourceRevision
    |>.field reads_number SourceBinding.accessRevision SourceBinding.Fits.accessRevision
    |>.field reads_text SourceBinding.role SourceBinding.Fits.role
  refine h.map fun a b _ _ e => ?_
  cases a; cases b
  simp only [Prod.mk.injEq] at e
  simp [e]

/-- The same facts in the first format, without a projection and sources. -/
def unbound (d : Data) : Data := { d with formatVersion := 1, policyProjection := none, registeredSources := [] }

theorem reads_facts : Reads Data.Fits framedFacts unbound := by
  have h := Reads.first reads_id Data.owner (P := Data.Fits) (fun _ => trivial)
    |>.field reads_number Data.ownerEpoch Data.Fits.ownerEpoch
    |>.field reads_number Data.policyRevision Data.Fits.policyRevision
    |>.field reads_id Data.recipient (fun _ => trivial) |>.field reads_id Data.workload (fun _ => trivial)
    |>.field reads_number Data.expiresAt Data.Fits.expiresAt
    |>.field reads_id (·.code.repository) (fun _ => trivial) |>.field reads_text (·.code.commit) Data.Fits.commit
    |>.field reads_text (·.code.tree) Data.Fits.tree |>.field reads_number (·.code.commits) Data.Fits.commits
    |>.field reads_digest (·.code.historyDigest) (fun _ => trivial)
    |>.field reads_number (·.code.objects) Data.Fits.objects
    |>.field reads_number (·.code.objectBytes) Data.Fits.objectBytes
    |>.field reads_number (·.code.headFiles) Data.Fits.headFiles
    |>.field (reads_countedList reads_context) Data.contexts Data.Fits.contexts
    |>.field reads_id (·.snapshot.repository) (fun _ => trivial)
    |>.field reads_text (·.snapshot.commit) Data.Fits.snapshotCommit
    |>.field reads_text (·.snapshot.tree) Data.Fits.snapshotTree
    |>.field reads_number Data.selectedBytes Data.Fits.selectedBytes
  refine h.map fun a b _ _ e => ?_
  obtain ⟨_, _, _, _, _, _, _, _, ⟨_, _, _, _, _, _, _, _⟩, _, ⟨_, _, _⟩, _, _⟩ := a
  obtain ⟨_, _, _, _, _, _, _, _, ⟨_, _, _, _, _, _, _, _⟩, _, ⟨_, _, _⟩, _, _⟩ := b
  simp only [Prod.mk.injEq] at e
  simp [unbound, e]

theorem reads_version : Reads Data.Fits
    (fun d => Hash.new (if d.formatVersion = 2 then "mikaki.work-disclosure.v2" else "mikaki.work-disclosure.v1"))
    Data.formatVersion := by
  refine (Reads.first reads_text _ fun _ => ?_).map fun a b ha hb e => ?_
  · split <;> decide
  · rcases ha.format with ⟨ha, -⟩ | ⟨ha, -⟩ <;> rcases hb.format with ⟨hb, -⟩ | ⟨hb, -⟩ <;>
      rw [ha, hb] at e ⊢ <;> exact absurd e (by decide)

theorem reads_projection : Reads (· ≠ none) framedProjection id := by
  intro a b ha hb u v e
  obtain ⟨a, rfl⟩ := Option.ne_none_iff_exists'.mp ha
  obtain ⟨b, rfl⟩ := Option.ne_none_iff_exists'.mp hb
  obtain ⟨h, e⟩ := reads_digest trivial trivial e
  exact ⟨congrArg some h, e⟩

/-- The version that has been read says whether sources and a projection follow. -/
theorem reads_sources (k : Nat × Data) : Reads (fun d : Data => d.Fits ∧ (d.formatVersion, d.unbound) = k) framedSources
    fun d => (d.registeredSources, d.policyProjection) := by
  intro a b ⟨ha, ka⟩ ⟨hb, kb⟩ u v e
  have hv : a.formatVersion = b.formatVersion := congrArg Prod.fst (ka.trans kb.symm)
  unfold framedSources at e
  rcases ha.format with ⟨h₁, hs, hp⟩ | ⟨h₂, hp, hs⟩ <;> rcases hb.format with ⟨h₁', hs', hp'⟩ | ⟨h₂', hp', hs'⟩
  · rw [h₁, h₁'] at e
    exact ⟨by simp only [hs, hp, hs', hp'], e⟩
  · omega
  · omega
  · rw [if_pos h₂, if_pos h₂', List.append_assoc, List.append_assoc] at e
    obtain ⟨es, e⟩ := reads_countedList reads_source hs hs' e
    obtain ⟨ep, e⟩ := reads_projection hp hp' e
    exact ⟨Prod.ext es ep, e⟩

theorem reads_preimage : Reads Data.Fits preimage id := by
  have h := (reads_version.append reads_facts).dependent reads_sources
  refine h.map fun a b _ _ e => ?_
  cases a; cases b
  simp only [Prod.mk.injEq, unbound, Data.mk.injEq] at e
  simp [e]

end Data

/-! ## What every constructor establishes -/

namespace ResolvedDisclosure

variable [Hashes]

structure Valid (d : ResolvedDisclosure) : Prop where
  data : d.data.validate = .ok ()
  digest : d.digest = d.data.digest

theorem fromRegisteredSelection_valid {input : RegisteredDisclosureInput} {session : OwnerSession}
    {environment : Environment} {d : ResolvedDisclosure}
    (h : fromRegisteredSelection input session environment = .ok d) : d.Valid := by
  simp only [fromRegisteredSelection, check_bind_eq_ok] at h
  obtain ⟨-, -, -, h⟩ := h
  split at h
  · cases h
  · simp only [bind_eq_ok, exists_unit, pure_eq_ok] at h
    obtain ⟨-, -, _, -, _, -, _, -, _, -, _, -, _, -, hv, _, -, rfl⟩ := h
    exact ⟨hv, rfl⟩

theorem fromVerifiedGit_valid {input : GitDisclosureInput} {recipient workload : String} {session : OwnerSession}
    {environment : Environment} {expiresAt : Nat} {d : ResolvedDisclosure}
    (h : fromVerifiedGit input recipient workload session environment expiresAt = .ok d) :
    d.Valid ∧ d.data.expiresAt = expiresAt := by
  simp only [fromVerifiedGit, bind_eq_ok, exists_unit, pure_eq_ok] at h
  obtain ⟨-, -, _, -, -, -, -, -, _, -, _, -, _, -, _, -, _, -, hv, _, -, rfl⟩ := h
  exact ⟨⟨hv, rfl⟩, rfl⟩

theorem bindRegisteredSources_valid {g d : ResolvedDisclosure} {sources : List (RegisteredSource × Nat)}
    {projection : Digest} (h : g.bindRegisteredSources sources projection = .ok d) :
    d.Valid ∧ d.data.expiresAt = g.data.expiresAt := by
  simp only [bindRegisteredSources, bind_eq_ok, exists_unit, pure_eq_ok] at h
  obtain ⟨-, _, -, hv, _, -, rfl⟩ := h
  exact ⟨⟨hv, rfl⟩, rfl⟩

end ResolvedDisclosure

end Mikaki
