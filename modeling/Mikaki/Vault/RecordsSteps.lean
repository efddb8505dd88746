import Mikaki.Vault.RecordsSound

/-!
# What a step does to each table

For each table, where a row of it comes from and where it goes.
-/

namespace Mikaki.Vault.Records

open Concurrent Rows Transactions
open Browser (Bytes)

variable {d d' : Db} {tx : Tx}

theorem clock_run (hd : Keyed d) (h : Tx.run tx d = some d') : d'.clock = d.clock ∧ d'.bucketClock = d.bucketClock := by
  cases tx with
  | register key =>
    simp only [Tx.run, Option.bind_eq_bind, Option.bind_eq_some_iff, Option.pure_def, Option.some.injEq] at h
    obtain ⟨candidates, -, rfl⟩ := h
    exact ⟨rfl, rfl⟩
  | upload key bytes =>
    simp only [Tx.run, Option.bind_eq_bind, Option.bind_eq_some_iff, Option.pure_def, Option.some.injEq] at h
    obtain ⟨bucket, -, rfl⟩ := h
    exact ⟨rfl, rfl⟩
  | commit c =>
    rcases c.run_cases hd h with ⟨-, rfl⟩ | hm
    · exact ⟨rfl, rfl⟩
    · obtain ⟨old, -, he⟩ := hm.written
      rw [he]
      exact ⟨rfl, rfl⟩
  | discover rows | mark now | delete keys | remove keys | expire cutoff chosen | lapse chosen =>
    cases h
    exact ⟨rfl, rfl⟩

/-! ## Heads -/

theorem mem_heads (hd : Keyed d) (h : Tx.run tx d = some d') {x : HeadRow} (hx : x ∈ d'.heads) :
    x ∈ d.heads ∨ ∃ c, tx = .commit c ∧ c.allowed d ∧ x = c.row := by
  cases tx with
  | commit c =>
    rcases c.run_cases hd h with ⟨-, rfl⟩ | hm
    · exact .inl hx
    · obtain ⟨old, hheads, -⟩ := hm.written
      rcases hheads with ⟨-, -, -, hh⟩ | ⟨y, hy, hslot, -, -, hh⟩
      · rw [hh] at hx
        rcases mem_snoc.mp hx with hx | rfl
        · exact .inl hx
        · exact .inr ⟨c, rfl, hm.allowed, rfl⟩
      · rw [hh] at hx
        rcases (mem_replace HeadRow.slot c.row hy hslot.symm).mp hx with rfl | ⟨hx, -⟩
        · exact .inr ⟨c, rfl, hm.allowed, rfl⟩
        · exact .inl hx
  | register key =>
    simp only [Tx.run, Option.bind_eq_bind, Option.bind_eq_some_iff, Option.pure_def, Option.some.injEq] at h
    obtain ⟨candidates, -, rfl⟩ := h
    exact .inl hx
  | upload key bytes =>
    simp only [Tx.run, Option.bind_eq_bind, Option.bind_eq_some_iff, Option.pure_def, Option.some.injEq] at h
    obtain ⟨bucket, -, rfl⟩ := h
    exact .inl hx
  | discover rows | mark now | delete keys | remove keys | expire cutoff chosen | lapse chosen =>
    cases h
    exact .inl hx

/-! ## Receipts -/

theorem mem_mutations (hd : Keyed d) (h : Tx.run tx d = some d') {m : MutationRow} (hm : m ∈ d'.mutations) :
    m ∈ d.mutations ∨ ∃ c, tx = .commit c ∧ c.allowed d ∧ m = c.receipt d.clock := by
  cases tx with
  | commit c =>
    rcases c.run_cases hd h with ⟨-, rfl⟩ | hmoves
    · exact .inl hm
    · obtain ⟨old, -, he⟩ := hmoves.written
      rw [he] at hm
      rcases mem_snoc.mp hm with hm | rfl
      · exact .inl hm
      · exact .inr ⟨c, rfl, hmoves.allowed, rfl⟩
  | register key =>
    simp only [Tx.run, Option.bind_eq_bind, Option.bind_eq_some_iff, Option.pure_def, Option.some.injEq] at h
    obtain ⟨candidates, -, rfl⟩ := h
    exact .inl hm
  | upload key bytes =>
    simp only [Tx.run, Option.bind_eq_bind, Option.bind_eq_some_iff, Option.pure_def, Option.some.injEq] at h
    obtain ⟨bucket, -, rfl⟩ := h
    exact .inl hm
  | expire cutoff chosen | lapse chosen =>
    cases h
    exact .inl (List.mem_of_mem_filter hm)
  | discover rows | mark now | delete keys | remove keys =>
    cases h
    exact .inl hm

/-- A receipt stays until it is old. -/
theorem mutations_kept (hd : Keyed d) (h : Tx.run tx d = some d') {m : MutationRow} (hm : m ∈ d.mutations) :
    m ∈ d'.mutations ∨ (∃ cutoff chosen, tx = .expire cutoff chosen ∧ m.createdAt < cutoff) ∨ m.createdAt + retention < d.clock := by
  cases tx with
  | commit c =>
    rcases c.run_cases hd h with ⟨-, rfl⟩ | hmoves
    · exact .inl hm
    · obtain ⟨old, -, he⟩ := hmoves.written
      rw [he]
      exact .inl (List.mem_append_left _ hm)
  | register key =>
    simp only [Tx.run, Option.bind_eq_bind, Option.bind_eq_some_iff, Option.pure_def, Option.some.injEq] at h
    obtain ⟨candidates, -, rfl⟩ := h
    exact .inl hm
  | upload key bytes =>
    simp only [Tx.run, Option.bind_eq_bind, Option.bind_eq_some_iff, Option.pure_def, Option.some.injEq] at h
    obtain ⟨bucket, -, rfl⟩ := h
    exact .inl hm
  | expire cutoff chosen =>
    cases h
    by_cases hold : m.createdAt < cutoff
    · exact .inr (.inl ⟨cutoff, chosen, rfl, hold⟩)
    · refine .inl (List.mem_filter.mpr ⟨hm, ?_⟩)
      simp [hold]
  | lapse chosen =>
    cases h
    by_cases hold : m.createdAt + retention < d.clock
    · exact .inr (.inr hold)
    · refine .inl (List.mem_filter.mpr ⟨hm, ?_⟩)
      simp [hold]
  | discover rows | mark now | delete keys | remove keys =>
    cases h
    exact .inl hm

theorem commit_receipt (hd : Keyed d) {c : Commit} (h : Tx.run (.commit c) d = some d') (ha : c.allowed d) :
    c.receipt d.clock ∈ d'.mutations := by
  obtain ⟨old, -, he⟩ := (c.run_allowed hd h ha).written
  rw [he]
  exact List.mem_append_right _ (List.mem_singleton_self _)

/-! ## Objects -/

theorem mem_bucket (hd : Keyed d) (h : Tx.run tx d = some d') {o : Object} (ho : o ∈ d'.bucket) :
    o ∈ d.bucket ∨ tx = .upload o.key o.bytes ∧ o.uploaded = d.bucketClock := by
  cases tx with
  | commit c =>
    rcases c.run_cases hd h with ⟨-, rfl⟩ | hmoves
    · exact .inl ho
    · obtain ⟨old, -, he⟩ := hmoves.written
      rw [he] at ho
      exact .inl ho
  | register key =>
    simp only [Tx.run, Option.bind_eq_bind, Option.bind_eq_some_iff, Option.pure_def, Option.some.injEq] at h
    obtain ⟨candidates, -, rfl⟩ := h
    exact .inl ho
  | upload key bytes =>
    simp only [Tx.run, Option.bind_eq_bind, Option.bind_eq_some_iff, Option.pure_def, Option.some.injEq] at h
    obtain ⟨bucket, hb, rfl⟩ := h
    obtain ⟨-, rfl⟩ := insert_eq_some.mp hb
    rcases mem_snoc.mp ho with ho | rfl
    · exact .inl ho
    · exact .inr ⟨rfl, rfl⟩
  | delete keys =>
    cases h
    exact .inl (List.mem_of_mem_filter ho)
  | discover rows | mark now | remove keys | expire cutoff chosen | lapse chosen =>
    cases h
    exact .inl ho

theorem bucket_kept (hd : Keyed d) (h : Tx.run tx d = some d') {o : Object} (ho : o ∈ d.bucket) :
    o ∈ d'.bucket ∨ ∃ keys, tx = .delete keys ∧ o.key ∈ keys := by
  cases tx with
  | commit c =>
    rcases c.run_cases hd h with ⟨-, rfl⟩ | hmoves
    · exact .inl ho
    · obtain ⟨old, -, he⟩ := hmoves.written
      rw [he]
      exact .inl ho
  | register key =>
    simp only [Tx.run, Option.bind_eq_bind, Option.bind_eq_some_iff, Option.pure_def, Option.some.injEq] at h
    obtain ⟨candidates, -, rfl⟩ := h
    exact .inl ho
  | upload key bytes =>
    simp only [Tx.run, Option.bind_eq_bind, Option.bind_eq_some_iff, Option.pure_def, Option.some.injEq] at h
    obtain ⟨bucket, hb, rfl⟩ := h
    obtain ⟨-, rfl⟩ := insert_eq_some.mp hb
    exact .inl (List.mem_append_left _ ho)
  | delete keys =>
    cases h
    by_cases hk : o.key ∈ keys
    · exact .inr ⟨keys, rfl, hk⟩
    · refine .inl (List.mem_filter.mpr ⟨ho, ?_⟩)
      simp [hk]
  | discover rows | mark now | remove keys | expire cutoff chosen | lapse chosen =>
    cases h
    exact .inl ho

theorem upload_bucket {key : String} {bytes : Bytes} (h : Tx.run (.upload key bytes) d = some d') :
    ∃ o ∈ d'.bucket, o.key = key ∧ o.bytes = bytes := by
  simp only [Tx.run, Option.bind_eq_bind, Option.bind_eq_some_iff, Option.pure_def, Option.some.injEq] at h
  obtain ⟨bucket, hb, rfl⟩ := h
  obtain ⟨-, rfl⟩ := insert_eq_some.mp hb
  exact ⟨_, List.mem_append_right _ (List.mem_singleton_self _), rfl, rfl⟩

/-! ## Candidates -/

theorem mem_retire {key : Option String} {eligibleAt : Nat} {t : List CandidateRow} {x : CandidateRow} (h : x ∈ retire key eligibleAt t) :
    x ∈ t ∨ key = some x.objectKey ∧ x.eligibleAt = eligibleAt := by
  unfold retire at h
  cases key with
  | none => exact .inl h
  | some key =>
    dsimp only at h
    split at h
    · exact .inl h
    · rcases mem_snoc.mp h with h | rfl
      · exact .inl h
      · exact .inr ⟨rfl, rfl⟩

theorem mem_settle {c : Commit} {old : Option String} {x : CandidateRow} (h : x ∈ c.settle old d) :
    x ∈ d.candidates ∨ old = some x.objectKey ∧ x.eligibleAt = d.clock + grace := by
  rcases mem_retire (List.mem_of_mem_filter h) with hx | ⟨hk, ht⟩
  · exact .inl hx
  · split at hk
    · cases hk
    · exact .inr ⟨hk, ht⟩

theorem mem_discover {rows : List (String × Nat)} {t : List CandidateRow} {x : CandidateRow}
    (h : x ∈ rows.foldl (discover d) t) : x ∈ t ∨ (x.objectKey, x.eligibleAt) ∈ rows := by
  induction rows generalizing t with
  | nil => exact .inl h
  | cons row rows ih =>
    rcases ih h with hx | hx
    · unfold discover at hx
      split at hx
      · exact .inl hx
      · rcases mem_snoc.mp hx with hx | rfl
        · exact .inl hx
        · exact .inr List.mem_cons_self
    · exact .inr (List.mem_cons_of_mem _ hx)

/-- A candidate is an earlier one, or of a write, of the bucket's list, or of a head that let go of it. -/
theorem mem_candidates (hd : Keyed d) (h : Tx.run tx d = some d') {x : CandidateRow} (hx : x ∈ d'.candidates) :
    (∃ y ∈ d.candidates, y.objectKey = x.objectKey ∧ y.eligibleAt = x.eligibleAt) ∨
    (tx = .register x.objectKey ∧ x.eligibleAt = d.clock + grace) ∨
    (∃ rows, tx = .discover rows ∧ (x.objectKey, x.eligibleAt) ∈ rows) ∨
    ∃ y ∈ d.heads, y.objectKey = some x.objectKey ∧ x.eligibleAt = d.clock + grace := by
  cases tx with
  | commit c =>
    rcases c.run_cases hd h with ⟨-, rfl⟩ | hmoves
    · exact .inl ⟨x, hx, rfl, rfl⟩
    · obtain ⟨old, hheads, he⟩ := hmoves.written
      rw [he] at hx
      rcases mem_settle hx with hx | ⟨hold, ht⟩
      · exact .inl ⟨x, hx, rfl, rfl⟩
      · rcases hheads with ⟨-, hnone, -⟩ | ⟨y, hy, -, -, hsome, -⟩
        · rw [hnone] at hold
          cases hold
        · exact .inr (.inr (.inr ⟨y, hy, hsome.symm.trans hold, ht⟩))
  | register key =>
    simp only [Tx.run, Option.bind_eq_bind, Option.bind_eq_some_iff, Option.pure_def, Option.some.injEq] at h
    obtain ⟨candidates, hc, rfl⟩ := h
    obtain ⟨-, rfl⟩ := insert_eq_some.mp hc
    rcases mem_snoc.mp hx with hx | rfl
    · exact .inl ⟨x, hx, rfl, rfl⟩
    · exact .inr (.inl ⟨rfl, rfl⟩)
  | upload key bytes =>
    simp only [Tx.run, Option.bind_eq_bind, Option.bind_eq_some_iff, Option.pure_def, Option.some.injEq] at h
    obtain ⟨bucket, -, rfl⟩ := h
    exact .inl ⟨x, hx, rfl, rfl⟩
  | discover rows =>
    cases h
    rcases mem_discover hx with hx | hx
    · exact .inl ⟨x, hx, rfl, rfl⟩
    · exact .inr (.inr (.inl ⟨rows, rfl, hx⟩))
  | mark now =>
    cases h
    obtain ⟨y, hy, ⟨-, he⟩ | ⟨-, he⟩⟩ := mem_update.mp hx
    · exact .inl ⟨y, hy, by rw [he], by rw [he]⟩
    · exact .inl ⟨y, hy, by rw [he], by rw [he]⟩
  | remove keys =>
    cases h
    exact .inl ⟨x, List.mem_of_mem_filter hx, rfl, rfl⟩
  | delete keys | expire cutoff chosen | lapse chosen =>
    cases h
    exact .inl ⟨x, hx, rfl, rfl⟩

/-- What a collector takes is the candidate of an object that is due and that no live head holds. -/
theorem mem_due {now : Nat} {key : String} (h : key ∈ due now d) :
    (∃ x ∈ d.candidates, x.objectKey = key ∧ x.eligibleAt ≤ now) ∧ ¬d.holds key := by
  unfold due at h
  obtain ⟨x, hx, rfl⟩ := List.mem_map.mp h
  have hx := List.mem_mergeSort.mp (List.mem_of_mem_take hx)
  rw [List.mem_filter, decide_eq_true_eq] at hx
  exact ⟨⟨x, hx.1, rfl, hx.2.1⟩, hx.2.2⟩

theorem not_held (hd : Keyed d) {key : String} (h : ¬d.holds key) : ∀ x ∈ d.heads, x.objectKey ≠ some key := by
  intro x hx he
  refine h ⟨x, hx, he, ?_⟩
  obtain ⟨-, -, -, -, -, -, ⟨-, hnone, -⟩ | ⟨hlive, -⟩⟩ := hd.checked x hx
  · rw [hnone] at he
    cases he
  · exact hlive

end Mikaki.Vault.Records
