import Mikaki.Vault.Records

/-!
# The history of a record

A batch either leaves the store as it is or moves one head by one revision and
adds the receipt of its operation. So a head is what the last of these batches
has written, and their revisions count from one on.
-/

namespace Mikaki.Vault.Records

open Concurrent Rows Transactions

/-! ## What a batch does -/

/-- The tables have their keys, and every head passes its check. -/
structure Keyed (d : Db) : Prop where
  heads : Unique HeadRow.slot d.heads
  checked : ∀ h ∈ d.heads, h.Check
  mutations : Unique MutationRow.key d.mutations
  bucket : Unique Object.key d.bucket

variable {d d' : Db} {c : Commit}

/-- One revision of one head, and the receipt of the operation. -/
structure Commit.Moves (c : Commit) (d d' : Db) : Prop where
  allowed : c.allowed d
  check : c.row.Check
  guarded : ∀ x ∈ d.candidates, x.state = .deleting → some x.objectKey ≠ c.objectKey
  written : ∃ old, ((c.expected = -1 ∧ old = none ∧ (∀ h ∈ d.heads, h.slot ≠ c.slot) ∧ d'.heads = d.heads ++ [c.row]) ∨
      ∃ h ∈ d.heads, h.slot = c.slot ∧ c.expects h ∧ old = h.objectKey ∧ d'.heads = replace HeadRow.slot c.row d.heads) ∧
    d' = { d with
      heads := d'.heads, candidates := c.settle old d, mutations := d.mutations ++ [c.receipt d.clock] }
  fresh : ∀ m ∈ d.mutations, m.key ≠ (c.accountId, c.operation)

/-- Kind, generation and format of an expected head are those that the write brings. -/
theorem Commit.row_eq {x : HeadRow} (hslot : x.slot = c.slot) (he : c.expects x) (hformat : x.formatVersion = 2) :
    { x with
      revision := c.revision, objectKey := c.objectKey, ciphertextSha256 := c.ciphertextSha256
      keyEnvelope := c.keyEnvelope, deleted := c.deleted } = c.row := by
  obtain ⟨-, hkind, hgeneration, -⟩ := he
  obtain ⟨hacc, hvault, hcol, hrec⟩ := Prod.ext_iff.mp hslot |>.imp_right fun h => Prod.ext_iff.mp h |>.imp_right Prod.ext_iff.mp
  cases x
  simp_all [Commit.row, HeadRow.slot, Commit.slot]

theorem Commit.upsert_cases (hd : Keyed d) {n : Nat} (h : c.upsert d = some (d', n)) :
    (¬c.allowed d ∧ d' = d ∧ n = 0) ∨
    (c.allowed d ∧ n = 1 ∧ c.row.Check ∧ (∀ x ∈ d.candidates, x.state = .deleting → some x.objectKey ≠ c.objectKey) ∧
      ∃ old, ((c.expected = -1 ∧ old = none ∧ (∀ h ∈ d.heads, h.slot ≠ c.slot) ∧ d'.heads = d.heads ++ [c.row]) ∨
        ∃ h ∈ d.heads, h.slot = c.slot ∧ c.expects h ∧ old = h.objectKey ∧ d'.heads = replace HeadRow.slot c.row d.heads) ∧
      d' = { d with heads := d'.heads, candidates := c.settle old d }) := by
  unfold Commit.upsert at h
  by_cases ha : c.allowed d
  · rw [if_pos ha] at h
    simp only [Option.bind_eq_bind, Option.bind_eq_some_iff, require_eq_some, exists_and_left] at h
    obtain ⟨hguard, -, h⟩ := h
    refine .inr ⟨ha, ?_⟩
    cases hl : lookup HeadRow.slot c.slot d.heads with
    | none =>
      simp only [hl, Option.bind_eq_some_iff, require_eq_some, Option.pure_def, Option.some.injEq, Prod.mk.injEq] at h
      obtain ⟨heads, hi, -, -, rfl, rfl⟩ := h
      obtain ⟨⟨hcheck, hfree⟩, rfl⟩ := insert_eq_some.mp hi
      have hexp : c.expected = -1 := by
        obtain ⟨-, -, -, -, -, hcur, -⟩ := ha
        rcases hcur with ⟨he, -⟩ | ⟨-, x, hx, hslot, -⟩
        · exact he
        · exact absurd hslot (lookup_eq_none.mp hl x hx)
      exact ⟨rfl, hcheck, hguard, none, .inl ⟨hexp, rfl, hfree, rfl⟩, rfl⟩
    | some x =>
      obtain ⟨hx, hslot⟩ := lookup_mem hl
      simp only [hl] at h
      have hexpects : c.expects x := by
        obtain ⟨-, -, -, -, -, hcur, -⟩ := ha
        rcases hcur with ⟨-, hno⟩ | ⟨-, y, hy, hyslot, hye⟩
        · exact absurd ⟨x, hx, hslot⟩ hno
        · rwa [hd.heads.eq hy hx (hyslot.trans hslot.symm)] at hye
      rw [if_pos hexpects] at h
      simp only [Option.bind_eq_some_iff, require_eq_some, Option.pure_def, Option.some.injEq, Prod.mk.injEq] at h
      obtain ⟨-, hcheck, -, -, rfl, rfl⟩ := h
      have hrow := c.row_eq hslot hexpects hcheck.2.2.2.2.2.1
      rw [hrow] at hcheck ⊢
      exact ⟨rfl, hcheck, hguard, x.objectKey, .inr ⟨x, hx, hslot, hexpects, rfl, rfl⟩, rfl⟩
  · rw [if_neg ha] at h
    cases h
    exact .inl ⟨ha, rfl, rfl⟩

theorem Commit.run_cases (hd : Keyed d) (h : c.run d = some d') : (¬c.allowed d ∧ d' = d) ∨ c.Moves d d' := by
  simp only [Commit.run, Option.bind_eq_bind, Option.bind_eq_some_iff] at h
  obtain ⟨⟨d₁, n⟩, hu, h⟩ := h
  rcases c.upsert_cases hd hu with ⟨hno, rfl, rfl⟩ | ⟨ha, rfl, hcheck, hguard, old, hheads, he⟩
  · cases h
    exact .inl ⟨hno, rfl⟩
  · simp only [if_true, Option.bind_eq_some_iff, Option.pure_def, Option.some.injEq] at h
    obtain ⟨ms, hi, rfl⟩ := h
    have hms : d₁.mutations = d.mutations := by rw [he]
    obtain ⟨⟨-, hfresh⟩, rfl⟩ := insert_eq_some.mp hi
    rw [hms] at hfresh
    refine .inr ⟨ha, hcheck, hguard, ⟨old, hheads, ?_⟩, hfresh⟩
    rw [he]

theorem Commit.run_refused (hd : Keyed d) (h : c.run d = some d') (hno : ¬c.allowed d) : d' = d := by
  rcases c.run_cases hd h with ⟨-, he⟩ | hm
  · exact he
  · exact absurd hm.allowed hno

theorem Commit.run_allowed (hd : Keyed d) (h : c.run d = some d') (ha : c.allowed d) : c.Moves d d' := by
  rcases c.run_cases hd h with ⟨hno, -⟩ | hm
  · exact absurd ha hno
  · exact hm

theorem Keyed.run (hd : Keyed d) {tx : Tx} (h : Tx.run tx d = some d') : Keyed d' := by
  cases tx with
  | register key =>
    simp only [Tx.run, Option.bind_eq_bind, Option.bind_eq_some_iff, Option.pure_def, Option.some.injEq] at h
    obtain ⟨candidates, -, rfl⟩ := h
    exact ⟨hd.heads, hd.checked, hd.mutations, hd.bucket⟩
  | upload key bytes =>
    simp only [Tx.run, Option.bind_eq_bind, Option.bind_eq_some_iff, Option.pure_def, Option.some.injEq] at h
    obtain ⟨bucket, hb, rfl⟩ := h
    obtain ⟨⟨-, hfree⟩, rfl⟩ := insert_eq_some.mp hb
    exact ⟨hd.heads, hd.checked, hd.mutations, hd.bucket.snoc hfree⟩
  | commit c =>
    rcases c.run_cases hd h with ⟨-, rfl⟩ | hm
    · exact hd
    · obtain ⟨old, hheads, he⟩ := hm.written
      rw [he]
      refine ⟨?_, ?_, hd.mutations.snoc hm.fresh, hd.bucket⟩
      · rcases hheads with ⟨-, -, hfree, hh⟩ | ⟨x, hx, hslot, -, -, hh⟩
        · rw [hh]
          exact hd.heads.snoc hfree
        · rw [hh]
          exact hd.heads.replace hd.heads hx hslot.symm hslot.symm
      · rcases hheads with ⟨-, -, -, hh⟩ | ⟨x, hx, hslot, -, -, hh⟩
        · rw [hh]
          exact forall_mem_snoc hd.checked hm.check
        · rw [hh]
          intro y hy
          rcases (mem_replace HeadRow.slot c.row hx hslot.symm).mp hy with rfl | ⟨hy, -⟩
          · exact hm.check
          · exact hd.checked y hy
  | discover rows =>
    cases h
    exact ⟨hd.heads, hd.checked, hd.mutations, hd.bucket⟩
  | mark now =>
    cases h
    exact ⟨hd.heads, hd.checked, hd.mutations, hd.bucket⟩
  | delete keys =>
    cases h
    exact ⟨hd.heads, hd.checked, hd.mutations, hd.bucket.filter _⟩
  | remove keys =>
    cases h
    exact ⟨hd.heads, hd.checked, hd.mutations, hd.bucket⟩
  | expire cutoff chosen | lapse chosen =>
    cases h
    exact ⟨hd.heads, hd.checked, hd.mutations.filter _, hd.bucket⟩

/-! ## The history of a record -/

section
variable {ι : Type}

/-- The batch of an entry, where it has moved a head. -/
def effect (e : Entry ι Db Tx) : Option Commit :=
  match e.tx with
  | .commit c => if c.allowed e.before then some c else none
  | _ => none

def committed (l : List (Entry ι Db Tx)) : List Commit := l.filterMap effect

def history (slot : Slot) (l : List (Entry ι Db Tx)) : List Commit := (committed l).filter fun c => c.slot = slot

theorem effect_eq_some {e : Entry ι Db Tx} : effect e = some c ↔ e.tx = .commit c ∧ c.allowed e.before := by
  obtain ⟨i, tx, d⟩ := e
  cases tx with
  | commit b =>
    unfold effect
    by_cases ha : b.allowed d
    · simp only [if_pos ha, Option.some.injEq, Tx.commit.injEq]
      exact ⟨fun h => ⟨h, h ▸ ha⟩, fun h => h.1⟩
    · simp only [if_neg ha, Tx.commit.injEq, reduceCtorEq, false_iff, not_and]
      rintro rfl
      exact ha
  | _ => simp [effect]

theorem history_snoc_none {l : List (Entry ι Db Tx)} {e : Entry ι Db Tx} (h : effect e = none) (slot : Slot) :
    history slot (l ++ [e]) = history slot l := by
  simp [history, committed, h]

theorem history_snoc_some {l : List (Entry ι Db Tx)} {e : Entry ι Db Tx} (h : effect e = some c) (slot : Slot) :
    history slot (l ++ [e]) = history slot l ++ if c.slot = slot then [c] else [] := by
  by_cases hs : c.slot = slot
  · simp [history, committed, h, hs]
  · simp [history, committed, h, hs]

/-- Each head is what the last batch of its record has written, and the revisions of a record count from one on. -/
structure Recorded (d : Db) (l : List (Entry ι Db Tx)) : Prop where
  keyed : Keyed d
  head : ∀ slot, lookup HeadRow.slot slot d.heads = (history slot l).getLast?.map Commit.row
  counted : ∀ slot, (history slot l).map (·.revision) = (List.range (history slot l).length).map fun n : Nat => (n : Int) + 1

/-- The last revision is the number of batches. -/
theorem Recorded.last {l : List (Entry ι Db Tx)} (h : Recorded d l) {slot : Slot} (hc : (history slot l).getLast? = some c) :
    c.revision = (history slot l).length := by
  have hcounted := h.counted slot
  obtain ⟨front, hfront⟩ := List.getLast?_eq_some_iff.mp hc
  rw [hfront] at hcounted ⊢
  have hlast := congrArg List.getLast? hcounted
  simp only [List.map_append, List.map_cons, List.map_nil, List.length_append, List.length_cons, List.length_nil, List.range_succ,
    List.getLast?_append, List.getLast?_singleton, Option.some_or, Option.some.injEq] at hlast
  rw [hlast]
  simp

/-- The new head of a batch that moves it. -/
theorem Commit.Moves.lookup_heads (hd : Keyed d) (h : c.Moves d d') (slot : Slot) :
    lookup HeadRow.slot slot d'.heads = if c.slot = slot then some c.row else lookup HeadRow.slot slot d.heads := by
  obtain ⟨old, hheads, -⟩ := h.written
  rcases hheads with ⟨-, -, hfree, hh⟩ | ⟨x, hx, hslot, -, -, hh⟩
  · rw [hh, lookup_append]
    by_cases hs : c.slot = slot
    · subst hs
      have hown : lookup HeadRow.slot c.slot [c.row] = some c.row := by simp [lookup, Commit.row, HeadRow.slot, Commit.slot]
      rw [if_pos rfl, lookup_eq_none.mpr hfree, hown]
      rfl
    · rw [if_neg hs]
      have hother : lookup HeadRow.slot slot [c.row] = none := by
        rw [lookup_eq_none]
        intro a ha
        rw [List.mem_singleton.mp ha]
        exact hs
      rw [hother, Option.or_none]
  · rw [hh]
    have hkeep : ∀ a, HeadRow.slot (if HeadRow.slot a = HeadRow.slot c.row then c.row else a) = HeadRow.slot a := by
      intro a
      by_cases ha : HeadRow.slot a = HeadRow.slot c.row
      · rw [if_pos ha, ha]
      · rw [if_neg ha]
    have hmap : lookup HeadRow.slot slot (replace HeadRow.slot c.row d.heads) =
        (lookup HeadRow.slot slot d.heads).map fun a => if HeadRow.slot a = HeadRow.slot c.row then c.row else a :=
      lookup_map hkeep
    rw [hmap]
    by_cases hs : c.slot = slot
    · subst hs
      rw [if_pos rfl, hd.heads.lookup.mpr ⟨hx, hslot⟩]
      exact congrArg some (if_pos hslot)
    · rw [if_neg hs]
      cases hl : lookup HeadRow.slot slot d.heads with
      | none => rfl
      | some a =>
        have ha : HeadRow.slot a ≠ HeadRow.slot c.row := by
          rw [(lookup_mem hl).2]
          exact fun he => hs he.symm
        exact congrArg some (if_neg ha)

/-- A step that is no batch leaves the heads. -/
theorem heads_quiet {i : ι} {tx : Tx} (hd : Keyed d) (h : Tx.run tx d = some d') (he : effect (⟨i, tx, d⟩ : Entry ι Db Tx) = none) :
    d'.heads = d.heads := by
  cases tx with
  | commit c =>
    have hno : ¬c.allowed d := by
      intro ha
      rw [effect_eq_some.mpr ⟨rfl, ha⟩] at he
      cases he
    rw [c.run_refused hd h hno]
  | register key =>
    simp only [Tx.run, Option.bind_eq_bind, Option.bind_eq_some_iff, Option.pure_def, Option.some.injEq] at h
    obtain ⟨candidates, -, rfl⟩ := h
    rfl
  | upload key bytes =>
    simp only [Tx.run, Option.bind_eq_bind, Option.bind_eq_some_iff, Option.pure_def, Option.some.injEq] at h
    obtain ⟨bucket, -, rfl⟩ := h
    rfl
  | discover rows | mark now | delete keys | remove keys | expire cutoff chosen | lapse chosen =>
    cases h
    rfl

/-- A batch brings the revision behind the last one of its record. -/
theorem Recorded.next {l : List (Entry ι Db Tx)} (hd : Recorded d l) (ha : c.allowed d) : c.revision = (history c.slot l).length + 1 := by
  obtain ⟨hrev, -, -, -, -, hcur, -⟩ := ha
  rcases hcur with ⟨hexp, hno⟩ | ⟨hpos, x, hx, hslot, hexp⟩
  · have hnone : lookup HeadRow.slot c.slot d.heads = none := lookup_eq_none.mpr fun x hx hs => hno ⟨x, hx, hs⟩
    rw [hd.head, Option.map_eq_none_iff, List.getLast?_eq_none_iff] at hnone
    rw [hrev, if_pos hexp, hnone]
    rfl
  · have hsome := hd.keyed.heads.lookup.mpr ⟨hx, hslot⟩
    rw [hd.head, Option.map_eq_some_iff] at hsome
    obtain ⟨b, hb, rfl⟩ := hsome
    have hlast := hd.last hb
    have hbrev : b.revision = c.expected := hexp.1
    rw [hrev, if_neg (by omega), ← hlast, hbrev]

theorem Recorded.run {i : ι} {tx : Tx} {l : List (Entry ι Db Tx)} (hd : Recorded d l) (h : Tx.run tx d = some d') :
    Recorded d' (l ++ [⟨i, tx, d⟩]) := by
  have hkeyed := hd.keyed.run h
  cases he : effect (⟨i, tx, d⟩ : Entry ι Db Tx) with
  | none =>
    refine ⟨hkeyed, fun slot => ?_, fun slot => ?_⟩
    · rw [history_snoc_none he, heads_quiet hd.keyed h he]
      exact hd.head slot
    · rw [history_snoc_none he]
      exact hd.counted slot
  | some c =>
    obtain ⟨htx, ha⟩ := effect_eq_some.mp he
    obtain rfl : tx = .commit c := htx
    have hm := c.run_allowed hd.keyed h ha
    refine ⟨hkeyed, fun slot => ?_, fun slot => ?_⟩
    · rw [hm.lookup_heads hd.keyed, history_snoc_some he]
      by_cases hs : c.slot = slot
      · rw [if_pos hs, if_pos hs, List.getLast?_append, List.getLast?_singleton, Option.some_or]
        rfl
      · rw [if_neg hs, if_neg hs, List.append_nil]
        exact hd.head slot
    · rw [history_snoc_some he]
      by_cases hs : c.slot = slot
      · subst hs
        rw [if_pos rfl, List.map_append, List.length_append, List.length_singleton, List.range_succ, List.map_append, hd.counted,
          List.map_singleton, List.map_singleton, hd.next ha]
      · rw [if_neg hs, List.append_nil]
        exact hd.counted slot

end

end Mikaki.Vault.Records
