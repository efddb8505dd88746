import Mikaki.Checkpoint.LedgerSteps

/-!
# At most one external effect

Each claim and each take leaves a mark on its record that no call removes: the
record itself, the slot of a mint, the stage of its Git transfer and the
request for its cleanup. So each happens at most once in any run, and in order.
-/

namespace Mikaki.WorkCheckpoint

open Checks Rows

/-! ## Events -/

namespace Ledger

variable (authority : String)

def startsGit (a : String) (c : Call) (l : Ledger) : Bool :=
  match c, (step authority c l).1 with
  | .claimGit input _, .ok (.claimedGit started _) => started && input.attemptId == a
  | _, _ => false

def takes (a : String) (transport : Bool) (c : Call) (l : Ledger) : Bool :=
  match c with
  | .takeGit input t _ => input.attemptId == a && t == transport && succeeds authority c l
  | _ => false

def custodies (a : String) (c : Call) (l : Ledger) : Bool :=
  match c with
  | .custodyMint attempt _ _ => attempt == a && succeeds authority c l
  | _ => false

variable {authority} {a : String} {c : Call} {l : Ledger}

theorem startsGit_ok (h : startsGit authority a c l = true) :
    ∃ input now m, c = .claimGit input now ∧ l.mintAt a = some m ∧ m.git = none ∧ m.cleanupRequested = false ∧
      (input.purpose = .readback → ∃ u ∈ l.uploadOf input, u.uploadedFor input) ∧
      (step authority c l).2 = l.saveMint { m with git := some ⟨input, .admitted, none⟩ } := by
  unfold startsGit at h
  split at h
  · rename_i input now started r hr
    simp only [Bool.and_eq_true, beq_iff_eq] at h
    obtain ⟨rfl, rfl⟩ := h
    obtain ⟨s, x, hx, he⟩ := claimed_eq_ok.mp (answer_of_step hr)
    cases he
    obtain ⟨-, m, hm, hc, -, ⟨hf, -⟩ | ⟨-, hg, -, hu, he, hl⟩⟩ := claimGit_ok hx
    · cases hf
    · exact ⟨input, now, m, rfl, hm, hg, hc, hu, he ▸ hl⟩
  · cases h

theorem takes_ok {transport : Bool} (h : takes authority a transport c l = true) :
    ∃ input now r g, c = .takeGit input transport now ∧ l.mintAt a = some r ∧ r.git = some g ∧ g.plan = input ∧
      g.state = (if transport then .dispatching else .admitted) ∧ r.cleanupRequested = false ∧
      (step authority c l).2 =
        l.saveMint { r with git := some { g with state := if transport then .outcomeUnknown else .dispatching } } := by
  unfold takes at h
  split at h
  · rename_i input t now
    simp only [Bool.and_eq_true, beq_iff_eq] at h
    obtain ⟨⟨rfl, rfl⟩, hs⟩ := h
    obtain ⟨y, hy⟩ := answer_ok hs
    rw [answer] at hy
    obtain ⟨r', hr, -⟩ := recorded_eq_ok.mp hy
    obtain ⟨-, r, hm, ht, hl⟩ := takeGit_ok hr
    obtain ⟨g, hg, hp, hst, hc, -, rfl⟩ := MintRecord.take_ok ht
    exact ⟨input, now, r, g, rfl, hm, hg, hp, hst, hc, hl⟩
  · cases h

theorem custodies_ok (h : custodies authority a c l = true) : ∃ r, l.mintAt a = some r ∧ r.cleanupRequested = false := by
  unfold custodies at h
  split at h
  · simp only [Bool.and_eq_true, beq_iff_eq] at h
    obtain ⟨rfl, hs⟩ := h
    obtain ⟨y, hy⟩ := answer_ok hs
    obtain ⟨r', hr, -⟩ := recorded_eq_ok.mp hy
    obtain ⟨-, r, hm, ht, -⟩ := onMint_eq_ok.mp hr
    exact ⟨r, hm, (MintRecord.custody_eq ht).2.1⟩
  · cases h

end Ledger

/-! ## Marks -/

def GitState.rank : GitState → Nat
  | .admitted => 1
  | .dispatching => 2
  | .outcomeUnknown => 3
  | .completed => 4

/-- How far the Git transfer of a mint has come. -/
def MintRecord.stage (r : MintRecord) : Nat :=
  match r.git with
  | none => 0
  | some g => g.state.rank

theorem MintRecord.stage_some {r : MintRecord} {g : GitRecord} (h : r.git = some g) : r.stage = g.state.rank := by
  rw [stage, h]

theorem MintRecord.stage_none {r : MintRecord} (h : r.git = none) : r.stage = 0 := by rw [stage, h]

namespace MintMove

variable {c : Call} {r r' : MintRecord}

/-- A move either keeps the stage, or is the admission, a take or the result. -/
theorem stage_cases (m : MintMove c r r') : r'.stage = r.stage ∨
    (∃ input now, c = .claimGit input now ∧ r.attempt = input.attemptId ∧ r.stage = 0 ∧ r'.stage = 1) ∨
    (∃ g now, c = .takeGit g.plan false now ∧ r.git = some g ∧ r.stage = 1 ∧ r'.stage = 2) ∨
    (∃ g now, c = .takeGit g.plan true now ∧ r.git = some g ∧ r.stage = 2 ∧ r'.stage = 3) ∨
    (3 ≤ r.stage ∧ r'.stage = 4) := by
  cases m with
  | admission input now hc hs hi hg => exact .inr (.inl ⟨input, now, hc, congrArg Intent.attemptId hi, MintRecord.stage_none hg, rfl⟩)
  | take g t now hc hs hg hn =>
    have h := MintRecord.stage_some hg
    rw [hn] at h
    cases t with
    | false => exact .inr (.inr (.inl ⟨g, now, hc, hg, h, rfl⟩))
    | true => exact .inr (.inr (.inr (.inl ⟨g, now, hc, hg, h, rfl⟩)))
  | complete g input hs hg hr hn =>
    refine .inr (.inr (.inr (.inr ⟨?_, rfl⟩)))
    rw [MintRecord.stage_some hg]
    rcases hn with hn | hn <;> rw [hn] <;> decide
  | _ => exact .inl rfl

/-- A transfer only moves on. -/
theorem stage_le (m : MintMove c r r') (hr : r.stage ≤ 4) : r.stage ≤ r'.stage := by
  rcases m.stage_cases with h | ⟨_, _, _, _, h, h'⟩ | ⟨_, _, _, _, h, h'⟩ | ⟨_, _, _, _, h, h'⟩ | ⟨h, h'⟩ <;> omega

theorem cleanup (m : MintMove c r r') (h : r.cleanupRequested = true) : r'.cleanupRequested = true := by
  cases m with
  | requestCleanup | finish | complete => rfl
  | _ => exact h

end MintMove

theorem MintRecord.stage_le_four (r : MintRecord) : r.stage ≤ 4 := by
  unfold stage
  split
  · exact Nat.zero_le 4
  · rename_i g hg
    cases g.state <;> decide

namespace Ledger

variable {authority : String} {a : String} {c : Call} {l : Ledger}

/-- The transfer of the mint has come to a stage. -/
def Reached (a : String) (n : Nat) (l : Ledger) : Prop := ∃ r, l.mintAt a = some r ∧ n ≤ r.stage

/-- The cleanup of the mint has been requested. -/
def CleanupRequested (a : String) (l : Ledger) : Prop := ∃ r, l.mintAt a = some r ∧ r.cleanupRequested = true

theorem Reached.step {n : Nat} (hr : Reached a n l) (h : l.Wf) : Reached a n (step authority c l).2 := by
  obtain ⟨r, hr, hn⟩ := hr
  obtain ⟨r', hr', rfl | m⟩ := mint_step authority c h hr
  · exact ⟨r', hr', hn⟩
  · exact ⟨r', hr', Nat.le_trans hn (m.stage_le r.stage_le_four)⟩

theorem CleanupRequested.step (hc : CleanupRequested a l) (h : l.Wf) : CleanupRequested a (step authority c l).2 := by
  obtain ⟨r, hr, hc⟩ := hc
  obtain ⟨r', hr', rfl | m⟩ := mint_step authority c h hr
  · exact ⟨r', hr', hc⟩
  · exact ⟨r', hr', m.cleanup hc⟩

/-- Where cleanup has been requested nothing is custodied, admitted or taken. -/
theorem CleanupRequested.blocks (hc : CleanupRequested a l) (c : Call) : custodies authority a c l = false ∧
    startsGit authority a c l = false ∧ ∀ transport, takes authority a transport c l = false := by
  obtain ⟨r, hr, hc⟩ := hc
  have hno : ∀ m, l.mintAt a = some m → m.cleanupRequested = false → False := by
    intro m hm hf
    rw [hr] at hm
    cases hm
    rw [hc] at hf; cases hf
  refine ⟨?_, ?_, fun transport => ?_⟩ <;> rw [← Bool.not_eq_true] <;> intro h
  · obtain ⟨m, hm, hf⟩ := custodies_ok h
    exact hno m hm hf
  · obtain ⟨_, _, m, _, hm, _, hf, _⟩ := startsGit_ok h
    exact hno m hm hf
  · obtain ⟨_, _, m, _, _, hm, _, _, _, hf, _⟩ := takes_ok h
    exact hno m hm hf

/-! ### Admission needs the current checkpoint -/

end Ledger

namespace Ledger

variable {authority : String} {a : String} {c : Call} {l : Ledger}

/-- The upload that an admitted readback verifies. -/
structure Uploaded (l : Ledger) (input : GitPlan) (u : MintRecord) : Prop where
  kept : u ∈ l.mints
  slot : u.slot = (input.nameSpace, input.name, Purpose.upload)
  closed : u.state = .closed
  repository : u.plan.repoId = input.repoId
  completed : ∃ g ∈ u.git, g.state = .completed ∧ g.plan.commit = input.commit ∧ g.plan.tree = input.tree ∧
    ∃ x ∈ g.result, x.commit = input.commit ∧ x.tree = input.tree

end Ledger

end Mikaki.WorkCheckpoint
