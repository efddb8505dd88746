import Mikaki.Checkpoint.Ledger

/-!
# What a ledger call can do

`EffectMove` and `MintMove` are the changes of one record, and `Change` the
changes of a ledger: nothing, one new record, or one move of one record. Every
call is such a change, so what the changes keep, every run keeps.
-/

namespace Mikaki.WorkCheckpoint

open Checks Rows

/-! ## Moves of one record -/

inductive EffectMove (r : EffectRecord) : EffectRecord → Prop
  | observe (repoId : String) (h : r.repoId = none ∨ r.repoId = some repoId) :
      EffectMove r { r with repoId := some repoId }
  | close (input : Closure) (hr : r.repoId = some input.repoId)
      (h : ∀ c ∈ r.closure, c.tokenId = input.tokenId ∧ c.expiresAt = input.expiresAt ∧ c.receipt = input.receipt) :
      EffectMove r { r with closure := some input, state := .closed }
  | observeToken (o : Observed TokenObservation) (h : r.state = .outcomeUnknown) :
      EffectMove r { r with tokenObservation := some o }
  | recordInventory (c : Observed RevocationInventory) (h : r.state = .outcomeUnknown) :
      EffectMove r { r with cleanup := some c }

/-- A move of a mint record; the call is named where only that call makes it. -/
inductive MintMove (c : Call) (r : MintRecord) : MintRecord → Prop
  | observe (input : MintObservation) (hp : r.plan.repoId = input.repoId)
      (h : ∀ o ∈ r.observation, o.tokenId = input.tokenId ∧ o.scope = input.scope ∧ o.expiresAt = input.expiresAt) :
      MintMove c r { r with observation := some input }
  | custody (hs : r.state ≠ .closed) (hc : r.cleanupRequested = false) :
      MintMove c r { r with state := .custodied }
  | requestCleanup (acknowledged : Bool) (hs : r.state ≠ .closed) :
      MintMove c r { r with revokeAcknowledged := acknowledged, cleanupRequested := true, state := .outcomeUnknown }
  | close (digest receipt : String) (hc : c = .closeMint r.attempt digest receipt) (hq : r.cleanupRequested = true)
      (ho : r.observation ≠ none) (h : ∀ x ∈ r.receipt, x = receipt) :
      MintMove c r { r with state := .closed, receipt := some receipt }
  | recordCleanup (x : Observed MintCleanup) (hs : r.state = .outcomeUnknown) : MintMove c r { r with cleanup := some x }
  | closeRefused (digest : String) (input : MintRefusal) (now : Nat) (f : Observed MintRefusal)
      (hc : c = .closeMintRefused r.attempt digest input now) (hq : r.cleanupRequested = true) (ho : r.observation ≠ none)
      (h : ∀ x ∈ r.refusal, x = f) :
      MintMove c r { r with refusal := some f, state := .closed }
  | admission (input : GitPlan) (now : Nat) (hc : c = .claimGit input now) (hs : r.state = .custodied)
      (hi : r.plan.toIntent = input.toIntent) (hg : r.git = none) :
      MintMove c r { r with git := some ⟨input, .admitted, none⟩ }
  | take (g : GitRecord) (transport : Bool) (now : Nat) (hc : c = .takeGit g.plan transport now)
      (hs : r.state = .custodied) (hg : r.git = some g)
      (hn : g.state = if transport then .dispatching else .admitted) :
      MintMove c r { r with git := some { g with state := if transport then .outcomeUnknown else .dispatching } }
  | finish (g : GitRecord) (hs : r.state ≠ .closed) (hg : r.git = some g) :
      MintMove c r { r with cleanupRequested := true, state := .outcomeUnknown }
  | complete (g : GitRecord) (input : GitResult) (hs : r.state ≠ .closed) (hg : r.git = some g)
      (hr : gitResult input g.plan = .ok ()) (hn : g.state = .outcomeUnknown ∨ g.state = .completed) :
      MintMove c r { r with
        git := some { g with result := some input, state := .completed }, cleanupRequested := true
        state := .outcomeUnknown }

namespace EffectRecord

variable {r r' : EffectRecord}

theorem observe_ok {digest repoId : String} (h : r.observe digest repoId = .ok r') : EffectMove r r' := by
  simp only [observe, check_bind_eq_ok, denyIf_eq_ok, pure_eq_ok, not_or, not_and, not_not] at h
  obtain ⟨⟨-, hn⟩, rfl⟩ := h
  refine .observe repoId ?_
  by_cases hr : r.repoId = none
  · exact .inl hr
  · exact .inr (hn hr)

theorem close_ok {digest : String} {input : Closure} (h : r.close digest input = .ok r') : EffectMove r r' := by
  simp only [close, check_bind_eq_ok, denyIf_eq_ok, pure_eq_ok, not_or, not_exists, not_and, not_not] at h
  obtain ⟨⟨-, hr, hc⟩, rfl⟩ := h
  exact .close input hr hc

theorem observeToken_ok {digest : String} {input : TokenObservation} {now : Nat}
    (h : r.observeToken digest input now = .ok r') : EffectMove r r' := by
  simp only [observeToken, check_bind_eq_ok, denyIf_eq_ok, pure_eq_ok, not_or, not_not] at h
  obtain ⟨⟨hs, -⟩, rfl⟩ := h
  have hm := EffectMove.observeToken (r.tokenObservation.getD ⟨input, now⟩) hs
  exact hm

theorem recordInventory_ok {digest : String} {input : RevocationInventory} {now : Nat}
    (h : r.recordInventory digest input now = .ok r') : EffectMove r r' := by
  simp only [recordInventory, check_bind_eq_ok, denyIf_eq_ok, pure_eq_ok, not_or, not_not] at h
  obtain ⟨⟨hs, -⟩, rfl⟩ := h
  exact .recordInventory _ hs

end EffectRecord

namespace MintRecord

variable {c : Call} {r r' : MintRecord}

theorem observe_ok {digest : String} {input : MintObservation} (h : r.observe digest input = .ok r') : MintMove c r r' := by
  simp only [observe, check_bind_eq_ok, denyIf_eq_ok, pure_eq_ok, not_or, not_exists, not_and, not_not] at h
  obtain ⟨⟨-, hp, ho⟩, rfl⟩ := h
  exact .observe input hp ho

theorem custody_eq {digest : String} {now : Nat} (h : r.custody digest now = .ok r') :
    r.state ≠ .closed ∧ r.cleanupRequested = false ∧ r' = { r with state := .custodied } := by
  simp only [custody, check_bind_eq_ok, denyIf_eq_ok, pure_eq_ok, not_or, Bool.not_eq_true] at h
  obtain ⟨⟨-, hs, -, hc, -⟩, rfl⟩ := h
  exact ⟨hs, hc, rfl⟩

theorem custody_ok {digest : String} {now : Nat} (h : r.custody digest now = .ok r') : MintMove c r r' := by
  obtain ⟨hs, hc, rfl⟩ := custody_eq h
  exact .custody hs hc

theorem revoke_ok {digest : String} {safety : Bool} (h : r.revoke digest safety = .ok r') : MintMove c r r' := by
  simp only [revoke, check_bind_eq_ok, denyIf_eq_ok, pure_eq_ok, not_or] at h
  obtain ⟨⟨-, hs, -⟩, rfl⟩ := h
  exact .requestCleanup true hs

theorem beginCleanup_ok {digest : String} {productive : Bool} (h : r.beginCleanup digest productive = .ok r') :
    MintMove c r r' := by
  simp only [beginCleanup, check_bind_eq_ok, denyIf_eq_ok, pure_eq_ok, not_or] at h
  obtain ⟨⟨-, hs, -⟩, rfl⟩ := h
  exact .requestCleanup r.revokeAcknowledged hs

/-- When `closeMint` closes a record. -/
theorem close_eq_ok {digest receipt : String} : r.close digest receipt = .ok r' ↔
    (r.plan.digest = digest ∧ r.cleanupRequested = true ∧
      (∃ o ∈ r.observation, o.scope = r.plan.scope ∧ o.expiresAt ≤ r.plan.expiresAt) ∧ ∀ x ∈ r.receipt, x = receipt) ∧
      r' = { r with state := .closed, receipt := some receipt } := by
  simp only [close, check_bind_eq_ok, denyIf_eq_ok, pure_eq_ok, not_or, not_forall, not_and, not_not, not_lt, ne_eq,
    Bool.not_eq_false, exists_prop, eq_comm (b := r')]
  refine and_congr_left fun _ => and_congr_right fun _ => and_congr_right fun _ => and_congr_right fun _ => ?_
  cases r.receipt <;> simp

theorem close_ok {digest receipt : String} (h : r.close digest receipt = .ok r') :
    MintMove (.closeMint r.attempt digest receipt) r r' := by
  obtain ⟨⟨-, hc, ⟨o, ho, -⟩, hr⟩, rfl⟩ := close_eq_ok.mp h
  exact .close digest receipt rfl hc (by rw [Option.mem_def.mp ho]; simp) hr

theorem recordCleanup_ok {digest : String} {input : MintCleanup} {now : Nat}
    (h : r.recordCleanup digest input now = .ok r') : MintMove c r r' := by
  simp only [recordCleanup, check_bind_eq_ok, denyIf_eq_ok, pure_eq_ok, not_or, not_not] at h
  obtain ⟨⟨-, -, hs, -⟩, rfl⟩ := h
  exact .recordCleanup _ hs

/-- When `closeMintRefused` closes a record. -/
theorem closeRefused_eq_ok {digest : String} {input : MintRefusal} {now : Nat} :
    r.closeRefused digest input now = .ok r' ↔
      (r.observation = some input.toMintObservation ∧ r.cleanup ≠ none ∧ r.cleanupRequested = true ∧
        r.plan.digest = digest ∧ r.state ≠ .custodied ∧ input.keyVersion = r.plan.keyVersion ∧
        ∀ f ∈ r.refusal, f.value.receipt = input.receipt) ∧
        r' = { r with refusal := some (r.refusal.getD ⟨input, now⟩), state := .closed } := by
  simp only [closeRefused, check_bind_eq_ok, denyIf_eq_ok, pure_eq_ok, not_or, not_exists, not_and, not_not, ne_eq,
    Bool.not_eq_false, eq_comm (b := r')]

theorem closeRefused_ok {digest : String} {input : MintRefusal} {now : Nat}
    (h : r.closeRefused digest input now = .ok r') :
    MintMove (.closeMintRefused r.attempt digest input now) r r' := by
  obtain ⟨⟨ho, -, hc, -⟩, rfl⟩ := closeRefused_eq_ok.mp h
  refine .closeRefused digest input now _ rfl hc (by rw [ho]; simp) ?_
  intro x hx
  rw [Option.mem_def.mp hx]; rfl

theorem take_ok {input : GitPlan} {transport : Bool} {now : Nat} (h : r.take input transport now = .ok r') :
    ∃ g, r.git = some g ∧ g.plan = input ∧ g.state = (if transport then .dispatching else .admitted) ∧
      r.cleanupRequested = false ∧ MintMove (.takeGit input transport now) r r' ∧
      r' = { r with git := some { g with state := if transport then .outcomeUnknown else .dispatching } } := by
  unfold take at h
  split at h
  · cases h
  · rename_i g hg
    simp only [check_bind_eq_ok, denyIf_eq_ok, pure_eq_ok, not_or, not_not, Bool.not_eq_true] at h
    obtain ⟨⟨hs, hc, hp, ht, -⟩, rfl⟩ := h
    exact ⟨g, hg, hp, ht, hc, .take g transport now (by rw [hp]) hs hg ht, rfl⟩

theorem finish_ok {result : Option GitResult} (h : r.finish result = .ok r') : MintMove c r r' := by
  unfold finish at h
  split at h
  · cases h
  · rename_i g hg
    rw [check_bind_eq_ok, denyIf_eq_ok, bind_eq_ok] at h
    obtain ⟨hs, g', hg', h⟩ := h
    cases h
    cases result with
    | none =>
      simp only [completed, pure_eq_ok] at hg'
      subst hg'
      rw [← hg]
      exact .finish g hs hg
    | some input =>
      simp only [completed, check_bind_eq_ok, denyIf_eq_ok, pure_eq_ok] at hg'
      obtain ⟨hr, hn, -, rfl⟩ := hg'
      exact .complete g input hs hg hr (by tauto)

end MintRecord

/-! ## Changes of a ledger -/

namespace Ledger

def effectAt (l : Ledger) (a : String) : Option EffectRecord := lookup EffectRecord.attempt a l.effects

def mintAt (l : Ledger) (a : String) : Option MintRecord := lookup MintRecord.attempt a l.mints

end Ledger

/-- The record that a started effect begins with. -/
def EffectRecord.fresh (input : InitialPlan) : EffectRecord :=
  { plan := input, state := .outcomeUnknown, repoId := none, closure := none, cleanup := none, tokenObservation := none }

open Ledger in
inductive Change (c : Call) (l : Ledger) : Ledger → Prop
  | quiet (s : Option State) : Change c l { l with state := s }
  | newEffect (input : InitialPlan) (h : l.effectAt input.attemptId = none) (hn : l.entries < 256) :
      Change c l (l.saveEffect (.fresh input))
  | effect {r r' : EffectRecord} (h : l.effectAt r.attempt = some r) (m : EffectMove r r') : Change c l (l.saveEffect r')
  | newMint (input : MintPlan) (h : ∀ b ∈ l.mints, b.attempt ≠ input.attemptId ∧ b.slot ≠ (minted input).slot)
      (hn : l.entries < 256) : Change c l { l with mints := l.mints ++ [minted input] }
  | mint {r r' : MintRecord} (h : l.mintAt r.attempt = some r) (m : MintMove c r r') : Change c l (l.saveMint r')

namespace Ledger

variable {authority : String} {c : Call} {l l' : Ledger} {attempt : String}

theorem effect_eq_ok {x : Option EffectRecord} : l.effect attempt = .ok x ↔ opaqueId attempt = true ∧ x = l.effectAt attempt := by
  simp only [effect, effectAt, check_bind_eq_ok, denyIf_eq_ok, Bool.not_eq_false, pure_eq_ok, eq_comm (b := x)]

theorem mint_eq_ok {x : Option MintRecord} : l.mint attempt = .ok x ↔ opaqueId attempt = true ∧ x = l.mintAt attempt := by
  simp only [mint, mintAt, check_bind_eq_ok, denyIf_eq_ok, Bool.not_eq_false, pure_eq_ok, eq_comm (b := x)]

theorem onEffect_eq_ok {f : EffectRecord → Except Fault EffectRecord} {r' : EffectRecord} :
    l.onEffect attempt f = .ok (r', l') ↔
      opaqueId attempt = true ∧ ∃ r, l.effectAt attempt = some r ∧ f r = .ok r' ∧ l' = l.saveEffect r' := by
  simp only [onEffect, bind_eq_ok, effect_eq_ok]
  constructor
  · rintro ⟨x, ⟨ho, rfl⟩, h⟩
    refine ⟨ho, ?_⟩
    split at h
    · cases h
    · rename_i r hr
      obtain ⟨a, ha, h⟩ := bind_eq_ok.mp h
      cases h
      exact ⟨r, hr, ha, rfl⟩
  · rintro ⟨ho, r, hr, hf, rfl⟩
    refine ⟨_, ⟨ho, rfl⟩, ?_⟩
    rw [hr]
    exact bind_eq_ok.mpr ⟨r', hf, rfl⟩

theorem onMint_eq_ok {missing : Fault} {f : MintRecord → Except Fault MintRecord} {r' : MintRecord} :
    l.onMint missing attempt f = .ok (r', l') ↔
      opaqueId attempt = true ∧ ∃ r, l.mintAt attempt = some r ∧ f r = .ok r' ∧ l' = l.saveMint r' := by
  simp only [onMint, bind_eq_ok, mint_eq_ok]
  constructor
  · rintro ⟨x, ⟨ho, rfl⟩, h⟩
    refine ⟨ho, ?_⟩
    split at h
    · cases h
    · rename_i r hr
      obtain ⟨a, ha, h⟩ := bind_eq_ok.mp h
      cases h
      exact ⟨r, hr, ha, rfl⟩
  · rintro ⟨ho, r, hr, hf, rfl⟩
    refine ⟨_, ⟨ho, rfl⟩, ?_⟩
    rw [hr]
    exact bind_eq_ok.mpr ⟨r', hf, rfl⟩

/-- A call that rewrites one effect record by a move. -/
theorem onEffect_change {f : EffectRecord → Except Fault EffectRecord} {r' : EffectRecord}
    (hf : ∀ r r', f r = .ok r' → EffectMove r r') (h : l.onEffect attempt f = .ok (r', l')) : Change c l l' := by
  obtain ⟨-, r, hr, hm, rfl⟩ := onEffect_eq_ok.mp h
  have ha : r.attempt = attempt := (lookup_mem hr).2
  exact .effect (ha ▸ hr) (hf r r' hm)

theorem onMint_change {missing : Fault} {f : MintRecord → Except Fault MintRecord} {r' : MintRecord}
    (hf : ∀ r r', r.attempt = attempt → f r = .ok r' → MintMove c r r') (h : l.onMint missing attempt f = .ok (r', l')) : Change c l l' := by
  obtain ⟨-, r, hr, hm, rfl⟩ := onMint_eq_ok.mp h
  have ha : r.attempt = attempt := (lookup_mem hr).2
  exact .mint (ha ▸ hr) (hf r r' ha hm)

theorem claimEffect_ok {input : InitialPlan} {release now : Nat} {started : Bool} {r : EffectRecord}
    (h : l.claimEffect authority input release now = .ok (started, r, l')) :
    (∃ e, l.admitting release input.checkpoint e = .ok ()) ∧ r.attempt = input.attemptId ∧
      ((started = false ∧ l' = l) ∨
        (started = true ∧ l.effectAt input.attemptId = none ∧ l.entries < 256 ∧ l' = l.saveEffect (.fresh input))) := by
  simp only [claimEffect, bind_eq_ok, exists_unit, effect_eq_ok] at h
  obtain ⟨-, ha, -, x, ⟨-, rfl⟩, h⟩ := h
  refine ⟨⟨_, ha⟩, ?_⟩
  split at h
  · rename_i p hp
    simp only [check_bind_eq_ok, pure_eq_ok] at h
    obtain ⟨-, h⟩ := h
    cases h
    exact ⟨(lookup_mem hp).2, .inl ⟨rfl, rfl⟩⟩
  · rename_i hn
    simp only [check_bind_eq_ok, denyIf_eq_ok, pure_eq_ok, not_le] at h
    obtain ⟨hc, h⟩ := h
    cases h
    exact ⟨rfl, .inr ⟨rfl, hn, hc, rfl⟩⟩

theorem claimMint_ok {input : MintPlan} {release now : Nat} {started : Bool} {r : MintRecord}
    (h : l.claimMint authority input release now = .ok (started, r, l')) :
    (∃ e, l.admitting release input.checkpoint e = .ok ()) ∧ r.attempt = input.attemptId ∧
      ((started = false ∧ l' = l) ∨
        (started = true ∧ r = minted input ∧ l.mintAt input.attemptId = none ∧ l.entries < 256 ∧
          (∀ b ∈ l.mints, b.attempt ≠ input.attemptId ∧ b.slot ≠ (minted input).slot) ∧
          l' = { l with mints := l.mints ++ [minted input] })) := by
  simp only [claimMint, bind_eq_ok, exists_unit, mint_eq_ok] at h
  obtain ⟨-, ha, -, i, -, -, x, ⟨-, rfl⟩, h⟩ := h
  refine ⟨⟨_, ha⟩, ?_⟩
  split at h
  · rename_i p hp
    simp only [check_bind_eq_ok, pure_eq_ok] at h
    obtain ⟨-, h⟩ := h
    cases h
    exact ⟨(lookup_mem hp).2, .inl ⟨rfl, rfl⟩⟩
  · rename_i hn
    simp only [insertMint, bind_eq_ok, exists_unit, denyIf_eq_ok, pure_eq_ok, ge_iff_le, not_le] at h
    obtain ⟨hc, l₂, ⟨hu, rfl⟩, h⟩ := h
    cases h
    refine ⟨rfl, .inr ⟨rfl, rfl, hn, hc, ?_, rfl⟩⟩
    intro b hb
    exact ⟨fun e => hu ⟨b, hb, .inl e⟩, fun e => hu ⟨b, hb, .inr e⟩⟩

theorem claimGit_ok {input : GitPlan} {now : Nat} {started : Bool} {r : MintRecord}
    (h : l.claimGit input now = .ok (started, r, l')) :
    (∃ e, l.admitting 1 input.checkpoint e = .ok ()) ∧ ∃ m, l.mintAt input.attemptId = some m ∧ m.cleanupRequested = false ∧
      m.state = .custodied ∧
      ((started = false ∧ r = m ∧ l' = l) ∨
        (started = true ∧ m.git = none ∧ m.plan.toIntent = input.toIntent ∧
          (input.purpose = .readback → ∃ u ∈ l.uploadOf input, u.uploadedFor input) ∧
          r = { m with git := some ⟨input, .admitted, none⟩ } ∧ l' = l.saveMint r)) := by
  simp only [claimGit, bind_eq_ok, exists_unit, mint_eq_ok] at h
  obtain ⟨-, ha, x, ⟨-, rfl⟩, h⟩ := h
  refine ⟨⟨_, ha⟩, ?_⟩
  split at h
  · cases h
  · rename_i m hm
    rw [check_bind_eq_ok] at h
    obtain ⟨hg, h⟩ := h
    simp only [MintRecord.gitAdmissible, check_bind_eq_ok, denyIf_eq_ok, not_or, not_not, Bool.not_eq_true] at hg
    obtain ⟨⟨hs, hc, -⟩, hi, -⟩ := hg
    refine ⟨m, hm, hc, hs, ?_⟩
    split at h
    · simp only [check_bind_eq_ok, pure_eq_ok] at h
      obtain ⟨-, h⟩ := h
      cases h
      exact .inl ⟨rfl, rfl, rfl⟩
    · rename_i hn
      simp only [check_bind_eq_ok, denyIf_eq_ok, pure_eq_ok] at h
      obtain ⟨hu, h⟩ := h
      cases h
      refine .inr ⟨rfl, hn, hi, ?_, rfl, rfl⟩
      intro hp
      simpa [hp] using hu

theorem takeGit_ok {input : GitPlan} {transport : Bool} {now : Nat} {r' : MintRecord}
    (h : l.takeGit input transport now = .ok (r', l')) :
    (∃ e, l.admitting 1 input.checkpoint e = .ok ()) ∧
      ∃ r, l.mintAt input.attemptId = some r ∧ r.take input transport now = .ok r' ∧ l' = l.saveMint r' := by
  simp only [takeGit, check_bind_eq_ok] at h
  obtain ⟨-, ha, h⟩ := h
  exact ⟨⟨_, ha⟩, (onMint_eq_ok.mp h).2⟩

/-! ### Every call -/

theorem recorded_eq_ok {α : Type} {reply : α → Reply} {x : Except Fault (α × Ledger)} {y : Reply} :
    recorded reply x = .ok (y, l') ↔ ∃ r, x = .ok (r, l') ∧ y = reply r := by
  cases x with
  | error e => simp [recorded]
  | ok p => obtain ⟨r, l₂⟩ := p; simp [recorded, eq_comm, and_comm]

theorem claimed_eq_ok {α : Type} {reply : Bool → α → Reply} {x : Except Fault (Bool × α × Ledger)} {y : Reply} :
    claimed reply x = .ok (y, l') ↔ ∃ started r, x = .ok (started, r, l') ∧ y = reply started r := by
  cases x with
  | error e => simp [claimed]
  | ok p =>
    obtain ⟨started, r, l₂⟩ := p
    simp only [claimed, ok_bind, pure_eq_ok, Except.ok.injEq, Prod.mk.injEq]
    constructor
    · rintro ⟨rfl, rfl⟩; exact ⟨started, r, ⟨rfl, rfl, rfl⟩, rfl⟩
    · rintro ⟨_, _, ⟨rfl, rfl, rfl⟩, rfl⟩; exact ⟨rfl, rfl⟩

theorem onState_change {f : State → Except Fault (Reply × State)} {y : Reply} (h : l.onState f = .ok (y, l')) :
    Change c l l' := by
  unfold onState at h
  split at h
  · cases h
  · obtain ⟨⟨reply, s⟩, -, h⟩ := bind_eq_ok.mp h
    cases h
    exact .quiet (some s)

theorem recorded_change {α : Type} {reply : α → Reply} {x : Except Fault (α × Ledger)} {y : Reply}
    (hx : ∀ r l', x = .ok (r, l') → Change c l l') (h : recorded reply x = .ok (y, l')) : Change c l l' := by
  obtain ⟨r, hr, -⟩ := recorded_eq_ok.mp h
  exact hx r l' hr

theorem claimed_change {α : Type} {reply : Bool → α → Reply} {x : Except Fault (Bool × α × Ledger)} {y : Reply}
    (hx : ∀ started r l', x = .ok (started, r, l') → Change c l l') (h : claimed reply x = .ok (y, l')) : Change c l l' := by
  obtain ⟨started, r, hr, -⟩ := claimed_eq_ok.mp h
  exact hx started r l' hr

theorem bootstrap_change {initial : Checkpoint} {releaseFloor : Nat} {y : Reply}
    (h : l.bootstrap authority initial releaseFloor = .ok (y, l')) : Change c l l' := by
  simp only [bootstrap, bind_eq_ok, exists_unit] at h
  obtain ⟨s, -, -, h⟩ := h
  cases h
  exact .quiet (some s)

theorem claimEffect_change {input : InitialPlan} {release now : Nat} {started : Bool} {r : EffectRecord}
    (h : l.claimEffect authority input release now = .ok (started, r, l')) : Change c l l' := by
  obtain ⟨-, -, ⟨-, rfl⟩ | ⟨-, hn, hc, rfl⟩⟩ := claimEffect_ok h
  · exact .quiet _
  · exact .newEffect input hn hc

theorem claimMint_change {input : MintPlan} {release now : Nat} {started : Bool} {r : MintRecord}
    (h : l.claimMint authority input release now = .ok (started, r, l')) : Change c l l' := by
  obtain ⟨-, -, ⟨-, rfl⟩ | ⟨-, -, -, hc, hu, rfl⟩⟩ := claimMint_ok h
  · exact .quiet _
  · exact .newMint input hu hc

theorem claimGit_change {input : GitPlan} {now : Nat} {started : Bool} {r : MintRecord}
    (h : l.claimGit input now = .ok (started, r, l')) : Change (.claimGit input now) l l' := by
  obtain ⟨-, m, hm, -, hs, ⟨-, -, rfl⟩ | ⟨-, hg, hi, -, rfl, rfl⟩⟩ := claimGit_ok h
  · exact .quiet _
  · have ha : m.attempt = input.attemptId := (lookup_mem hm).2
    exact .mint (ha ▸ hm) (.admission input now rfl hs hi hg)

theorem takeGit_change {input : GitPlan} {transport : Bool} {now : Nat} {r' : MintRecord}
    (h : l.takeGit input transport now = .ok (r', l')) : Change (.takeGit input transport now) l l' := by
  obtain ⟨-, r, hr, ht, rfl⟩ := takeGit_ok h
  obtain ⟨g, -, -, -, -, hm, -⟩ := MintRecord.take_ok ht
  have ha : r.attempt = input.attemptId := (lookup_mem hr).2
  exact .mint (ha ▸ hr) hm

theorem answer_change {y : Reply} (h : l.answer authority c = .ok (y, l')) : Change c l l' := by
  cases c <;> simp only [answer] at h
  case bootstrap initial releaseFloor => exact bootstrap_change h
  case begin expected operation release tip => exact onState_change h
  case commit plan observed release => exact onState_change h
  case raiseFloor value => exact onState_change h
  case freeze => exact onState_change h
  case claimEffect input release now => exact claimed_change (fun _ _ _ => claimEffect_change) h
  case claimMint input release now => exact claimed_change (fun _ _ _ => claimMint_change) h
  case claimGit input now => exact claimed_change (fun _ _ _ => claimGit_change) h
  case takeGit input transport now => exact recorded_change (fun _ _ => takeGit_change) h
  case finishGit attempt result =>
    exact recorded_change (fun _ _ => onMint_change fun _ _ _ => MintRecord.finish_ok) h
  case custodyMint attempt digest now =>
    exact recorded_change (fun _ _ => onMint_change fun _ _ _ => MintRecord.custody_ok) h
  case revokeMint attempt digest safety =>
    exact recorded_change (fun _ _ => onMint_change fun _ _ _ => MintRecord.revoke_ok) h
  case beginMintCleanup attempt digest productive =>
    exact recorded_change (fun _ _ => onMint_change fun _ _ _ => MintRecord.beginCleanup_ok) h
  case observeMint attempt digest input =>
    refine recorded_change (fun r l' h => ?_) h
    exact onMint_change (fun _ _ _ => MintRecord.observe_ok) (check_bind_eq_ok.mp h).2
  case closeMint attempt digest receipt =>
    refine recorded_change (fun r l' h => ?_) h
    exact onMint_change (fun _ _ ha hf => by rw [← ha]; exact MintRecord.close_ok hf) (check_bind_eq_ok.mp h).2
  case recordMintCleanup attempt digest input now =>
    refine recorded_change (fun r l' h => ?_) h
    exact onMint_change (fun _ _ _ => MintRecord.recordCleanup_ok) (check_bind_eq_ok.mp h).2
  case closeMintRefused attempt digest input now =>
    refine recorded_change (fun r l' h => ?_) h
    exact onMint_change (fun _ _ ha hf => by rw [← ha]; exact MintRecord.closeRefused_ok hf) (check_bind_eq_ok.mp h).2
  case observeEffect attempt digest repoId =>
    refine recorded_change (fun r l' h => ?_) h
    exact onEffect_change (fun _ _ => EffectRecord.observe_ok) (check_bind_eq_ok.mp h).2
  case closeEffect attempt digest input =>
    refine recorded_change (fun r l' h => ?_) h
    exact onEffect_change (fun _ _ => EffectRecord.close_ok) (check_bind_eq_ok.mp (check_bind_eq_ok.mp h).2).2
  case observeEffectToken attempt digest input now =>
    refine recorded_change (fun r l' h => ?_) h
    exact onEffect_change (fun _ _ => EffectRecord.observeToken_ok) (check_bind_eq_ok.mp (check_bind_eq_ok.mp h).2).2
  case recordRevocationInventory attempt digest input now =>
    refine recorded_change (fun r l' h => ?_) h
    exact onEffect_change (fun _ _ => EffectRecord.recordInventory_ok) (check_bind_eq_ok.mp (check_bind_eq_ok.mp h).2).2

def succeeds (authority : String) (c : Call) (l : Ledger) : Bool := (step authority c l).1.isOk

theorem step_of_answer {y : Reply} (h : l.answer authority c = .ok (y, l')) : step authority c l = (.ok y, l') := by
  rw [step, h]

theorem run_answer {y : Reply} {cs : List Call} (h : l.answer authority c = .ok (y, l')) :
    Calls.run (step authority) l (c :: cs) = Calls.run (step authority) l' cs := by
  rw [Calls.run_cons, step_of_answer h]

theorem answer_of_step {y : Reply} (h : (step authority c l).1 = .ok y) :
    l.answer authority c = .ok (y, (step authority c l).2) := by
  unfold step at *
  split
  · rename_i e he; rw [he] at h; cases h
  · rename_i reply l' hl
    rw [hl] at h
    cases h
    exact hl

theorem answer_ok (h : succeeds authority c l = true) :
    ∃ y, l.answer authority c = .ok (y, (step authority c l).2) := by
  obtain ⟨y, hy⟩ := ok_of_isOk h
  exact ⟨y, answer_of_step hy⟩

/-- A call that throws changes nothing. -/
theorem step_of_fails (h : succeeds authority c l = false) : (step authority c l).2 = l := by
  unfold succeeds step at *
  split
  · rfl
  · rename_i reply l' hl
    rw [hl] at h; cases h

theorem step_change (authority : String) (c : Call) (l : Ledger) : Change c l (step authority c l).2 := by
  unfold step
  split
  · exact .quiet _
  · rename_i h; exact answer_change h

end Ledger

/-! ## Well-formed ledgers -/

/-- A closed effect has its closure, for the repository it observed. -/
structure EffectRecord.Sound (r : EffectRecord) : Prop where
  closed : r.state = .closed → ∃ c ∈ r.closure, r.repoId = some c.repoId
  closure : ∀ c ∈ r.closure, r.state = .closed

structure MintRecord.Sound (r : MintRecord) : Prop where
  cleaned : r.cleanupRequested = true → r.state ≠ .custodied
  closed : r.state = .closed → r.cleanupRequested = true ∧ r.observation ≠ none
  observed : ∀ o ∈ r.observation, o.repoId = r.plan.repoId
  git : ∀ g ∈ r.git, r.plan.toIntent = g.plan.toIntent ∧ ∀ x ∈ g.result, gitResult x g.plan = .ok ()

theorem EffectMove.sound {r r' : EffectRecord} (m : EffectMove r r') (h : r.Sound) : r'.Sound := by
  cases m with
  | observe repoId hr =>
    refine ⟨fun hs => ?_, h.closure⟩
    obtain ⟨c, hc, he⟩ := h.closed hs
    exact ⟨c, hc, by rcases hr with hr | hr <;> rw [hr] at he <;> [cases he; exact he]⟩
  | close input hr _ => exact ⟨fun _ => ⟨input, rfl, hr⟩, fun _ _ => rfl⟩
  | observeToken o hs => exact ⟨h.closed, h.closure⟩
  | recordInventory c hs => exact ⟨h.closed, h.closure⟩

theorem MintMove.sound {r r' : MintRecord} (m : MintMove c r r') (h : r.Sound) : r'.Sound := by
  cases m with
  | observe input hp _ =>
    refine ⟨h.cleaned, fun hs => ⟨(h.closed hs).1, by simp⟩, ?_, h.git⟩
    rintro o ⟨⟩
    exact hp.symm
  | custody hs hc => exact ⟨fun hc' => by simp [hc] at hc', (fun hs => by cases hs), h.observed, h.git⟩
  | requestCleanup a hs => exact ⟨fun _ => by simp, (fun hs => by cases hs), h.observed, h.git⟩
  | close _ _ _ hc ho _ => exact ⟨fun _ => by simp, fun _ => ⟨hc, ho⟩, h.observed, h.git⟩
  | recordCleanup c hs => exact ⟨h.cleaned, h.closed, h.observed, h.git⟩
  | closeRefused _ _ _ _ _ hc ho _ => exact ⟨fun _ => by simp, fun _ => ⟨hc, ho⟩, h.observed, h.git⟩
  | admission input now hc hs hi hg =>
    refine ⟨h.cleaned, h.closed, h.observed, ?_⟩
    rintro g ⟨⟩
    exact ⟨hi, fun x hx => by cases hx⟩
  | take g t now hc hs hg hn =>
    refine ⟨h.cleaned, h.closed, h.observed, ?_⟩
    rintro g' ⟨⟩
    exact h.git g hg
  | finish g hs hg => exact ⟨fun _ => by simp, fun hs => (by cases hs), h.observed, h.git⟩
  | complete g input hs hg hr hn =>
    refine ⟨fun _ => by simp, fun hs => (by cases hs), h.observed, ?_⟩
    rintro g' ⟨⟩
    refine ⟨(h.git g hg).1, ?_⟩
    rintro x ⟨⟩
    exact hr

theorem EffectMove.attempt {r r' : EffectRecord} (m : EffectMove r r') : r'.attempt = r.attempt := by cases m <;> rfl

theorem MintMove.plan {c : Call} {r r' : MintRecord} (m : MintMove c r r') : r'.plan = r.plan := by cases m <;> rfl

theorem MintMove.attempt {c : Call} {r r' : MintRecord} (m : MintMove c r r') : r'.attempt = r.attempt := by cases m <;> rfl

theorem MintMove.slot {c : Call} {r r' : MintRecord} (m : MintMove c r r') : r'.slot = r.slot := by cases m <;> rfl

/-- What every reachable ledger is. -/
structure Ledger.Wf (l : Ledger) : Prop where
  effects : Unique EffectRecord.attempt l.effects
  attempts : Unique MintRecord.attempt l.mints
  slots : Unique MintRecord.slot l.mints
  capacity : l.entries ≤ 256
  effect : ∀ r ∈ l.effects, r.Sound
  mint : ∀ r ∈ l.mints, r.Sound

namespace Ledger

variable {c : Call} {l l' : Ledger}

/-- On a well-formed ledger only the record itself is replaced. -/
theorem Wf.saveMint_eq (h : l.Wf) {r r' : MintRecord} (hr : l.mintAt r.attempt = some r) (ha : r'.attempt = r.attempt)
    (hs : r'.slot = r.slot) : l.saveMint r' = { l with mints := put MintRecord.attempt r' l.mints } := by
  have hm := (lookup_mem hr).1
  unfold saveMint put
  congr 2
  refine List.filter_congr fun b hb => ?_
  rw [ha, hs]
  by_cases e : b.attempt = r.attempt
  · simp [e]
  · have : b.slot ≠ r.slot := fun es => e (congrArg MintRecord.attempt (h.slots.eq hb hm es))
    simp [e, this]

/-- A saved record is read back. -/
theorem Wf.mintAt_save (h : l.Wf) {a : String} {r r' : MintRecord} (hr : l.mintAt a = some r) (hp : r'.plan = r.plan) :
    (l.saveMint r').mintAt a = some r' := by
  have ha : r.attempt = a := (lookup_mem hr).2
  have he : r'.attempt = r.attempt := congrArg (·.attemptId) hp
  have hs : r'.slot = r.slot := by unfold MintRecord.slot; rw [hp]
  rw [h.saveMint_eq (ha ▸ hr) he hs]
  subst ha
  rw [← he]
  exact lookup_put_self

theorem Change.wf (d : Change c l l') (h : l.Wf) : l'.Wf := by
  cases d with
  | quiet s => exact ⟨h.effects, h.attempts, h.slots, h.capacity, h.effect, h.mint⟩
  | newEffect input hn hc =>
    refine ⟨h.effects.put, h.attempts, h.slots, ?_, ?_, h.mint⟩
    · have hl : (put EffectRecord.attempt (.fresh input) l.effects).length ≤ l.effects.length + 1 := length_put_le
      unfold entries at *
      simp only [saveEffect]
      omega
    · intro r hr
      rcases mem_put hr with rfl | ⟨hr, -⟩
      · exact ⟨fun hs => (by cases hs), fun c hc => (by cases hc)⟩
      · exact h.effect r hr
  | @effect r r' hr m =>
    obtain ⟨hm, -⟩ := lookup_mem hr
    refine ⟨h.effects.put, h.attempts, h.slots, ?_, ?_, h.mint⟩
    · have hl := h.effects.length_put hm m.attempt.symm
      unfold entries
      simp only [saveEffect, hl]
      exact h.capacity
    · intro b hb
      rcases mem_put hb with rfl | ⟨hb, -⟩
      · exact m.sound (h.effect r hm)
      · exact h.effect b hb
  | newMint input hn hc =>
    refine ⟨h.effects, h.attempts.snoc fun b hb => (hn b hb).1, h.slots.snoc fun b hb => (hn b hb).2, ?_, h.effect, ?_⟩
    · unfold entries at *
      simp only [List.length_append, List.length_singleton]
      omega
    · intro b hb
      rcases List.mem_append.mp hb with hb | hb
      · exact h.mint b hb
      · rw [List.mem_singleton.mp hb]
        exact ⟨fun hc => (by cases hc), fun hs => (by cases hs), fun o ho => (by cases ho), fun g hg => (by cases hg)⟩
  | @mint r r' hr m =>
    obtain ⟨hm, -⟩ := lookup_mem hr
    rw [h.saveMint_eq hr m.attempt m.slot]
    refine ⟨h.effects, h.attempts.put, ?_, ?_, h.effect, ?_⟩
    · refine (h.slots.filter _).snoc fun b hb => ?_
      rw [List.mem_filter, decide_eq_true_eq, m.attempt] at hb
      rw [m.slot]
      exact fun e => hb.2 (congrArg MintRecord.attempt (h.slots.eq hb.1 hm e))
    · unfold entries
      simp only [h.attempts.length_put hm m.attempt.symm]
      exact h.capacity
    · intro b hb
      rcases mem_put hb with rfl | ⟨hb, -⟩
      · exact m.sound (h.mint r hm)
      · exact h.mint b hb

/-! ## Where a record comes from and where it goes -/

/-- Every effect record is still there, as it was or one move later. -/
theorem Change.effect_later (d : Change c l l') {a : String} {r : EffectRecord} (hr : l.effectAt a = some r) :
    ∃ r', l'.effectAt a = some r' ∧ (r' = r ∨ EffectMove r r') := by
  have ha := (lookup_mem hr).2
  cases d with
  | quiet s => exact ⟨r, hr, .inl rfl⟩
  | newEffect input hn hc =>
    refine ⟨r, (lookup_put_other ?_).trans hr, .inl rfl⟩
    rintro rfl
    have hn' : l.effectAt (EffectRecord.fresh input).attempt = none := hn
    rw [hn'] at hr; cases hr
  | @effect b b' hb m =>
    by_cases e : a = b'.attempt
    · subst e
      rw [m.attempt, hb] at hr
      cases hr
      exact ⟨b', lookup_put_self, .inr m⟩
    · exact ⟨r, (lookup_put_other e).trans hr, .inl rfl⟩
  | newMint input hn hc => exact ⟨r, hr, .inl rfl⟩
  | mint hb m => exact ⟨r, hr, .inl rfl⟩

theorem Change.mint_later (d : Change c l l') (h : l.Wf) {a : String} {r : MintRecord} (hr : l.mintAt a = some r) :
    ∃ r', l'.mintAt a = some r' ∧ (r' = r ∨ MintMove c r r') := by
  cases d with
  | quiet s => exact ⟨r, hr, .inl rfl⟩
  | newEffect input hn hc => exact ⟨r, hr, .inl rfl⟩
  | effect hb m => exact ⟨r, hr, .inl rfl⟩
  | newMint input hn hc =>
    refine ⟨r, ?_, .inl rfl⟩
    unfold mintAt at *
    rw [lookup_append, hr]; rfl
  | @mint b b' hb m =>
    rw [h.saveMint_eq hb m.attempt m.slot]
    by_cases e : a = b'.attempt
    · subst e
      rw [m.attempt, hb] at hr
      cases hr
      exact ⟨b', lookup_put_self, .inr m⟩
    · exact ⟨r, (lookup_put_other e).trans hr, .inl rfl⟩

theorem mint_step (authority : String) (c : Call) (h : l.Wf) {a : String} {r : MintRecord} (hr : l.mintAt a = some r) :
    ∃ r', (step authority c l).2.mintAt a = some r' ∧ (r' = r ∨ MintMove c r r') :=
  Change.mint_later (step_change authority c l) h hr

theorem step_wf (authority : String) (c : Call) (l : Ledger) (h : l.Wf) : (step authority c l).2.Wf :=
  Change.wf (step_change authority c l) h

/-- A ledger with no record, whatever its checkpoint state. -/
def fresh (start : Option State) : Ledger := ⟨start, [], []⟩

theorem fresh_wf (start : Option State) : (fresh start).Wf :=
  ⟨Unique.nil, Unique.nil, Unique.nil, Nat.zero_le _, fun _ h => (by cases h), fun _ h => (by cases h)⟩

theorem run_wf (authority : String) (start : Option State) (cs : List Call) :
    (Calls.run (step authority) (fresh start) cs).Wf :=
  Calls.run_invariant (step_wf authority) (fresh_wf start) cs

end Ledger

end Mikaki.WorkCheckpoint
