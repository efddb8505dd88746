import Mikaki.Identity.WalletAuthorization

/-!
# Pools of age proofs

A pool has a budget of holder keys and records the thumbprint of every key
that an age credential was issued to: one key at a time, or all of them in one
batch. `next` and `batch` make a new state; the state they start from stays.
-/

namespace Mikaki.Identity.Wallet.AgePool

open Checks Calls
open Mikaki.Vault (Base64 encode64 decode64)

structure State where
  agePoolVersion : Nat
  budget : Budget
  holders : List String
  deriving DecidableEq

/-- Letters, digits, `-` and `_`. -/
def urlSafe (b : UInt8) : Bool :=
  (48 ≤ b && b ≤ 57) || (65 ≤ b && b ≤ 90) || (97 ≤ b && b ≤ 122) || b == 45 || b == 95

namespace State

def new (budget : Budget) : Except String State := do
  let _ ← budget.validate
  return { agePoolVersion := if budget.mode = .batch then 2 else 1, budget, holders := [] }

/-- The version and the number of holders that `issued` operations have left. -/
def validCount (self : State) (issued : Nat) : Bool :=
  match self.budget.mode with
  | .sequential => self.agePoolVersion == 1 && self.holders.length == issued && issued ≤ self.budget.size
  | .batch =>
    self.agePoolVersion == 2 &&
      match issued with
      | 0 => self.holders.isEmpty
      | 1 => self.holders.length == self.budget.size
      | _ => false

def validate (self : State) (issued : Nat) : Except String Unit := do
  let _ ← self.budget.validate
  denyIf (self.validCount issued = false ∨
    (∃ h ∈ self.holders, h.utf8ByteSize ≠ 43 ∨ (Text.bytes h).all urlSafe = false) ∨ ¬self.holders.Nodup) "invalid_age_pool"

section
variable {Trust : Type} [Formats Trust]

def next (self : State) (holder : PublicJwk) : Except String State := do
  denyIf (self.budget.mode ≠ .sequential) "invalid_age_pool"
  self.validate self.holders.length
  denyIf (self.holders.length ≥ self.budget.size) "issuance_consumed"
  let thumbprint ← holder.thumbprint
  denyIf (thumbprint ∈ self.holders) "invalid_proof"
  return { self with holders := self.holders ++ [thumbprint] }

def batch (self : State) (holders : List PublicJwk) : Except String State := do
  self.validate 0
  denyIf (self.budget.mode ≠ .batch ∨ holders.length ≠ self.budget.size) "invalid_age_pool"
  let thumbprints ← collect holders PublicJwk.thumbprint
  let next := { self with holders := thumbprints }
  next.validate 1
  return next

end

end State

/-! ## Sequences of calls -/

inductive Call where
  | next (holder : PublicJwk)
  | batch (holders : List PublicJwk)
  | validate (issued : Nat)
  deriving DecidableEq

/-- What is returned takes the place of the state; an error leaves it. -/
def updated (self : State) (result : Except String State) : Except String Unit × State :=
  match result with
  | .ok next => (.ok (), next)
  | .error error => (.error error, self)

section
variable {Trust : Type} [Formats Trust]

def step (call : Call) (self : State) : Except String Unit × State :=
  match call with
  | .next holder => updated self (self.next holder)
  | .batch holders => updated self (self.batch holders)
  | .validate issued => (self.validate issued, self)

/-- The keys that a call takes into the pool. -/
def takes (call : Call) (self : State) : List PublicJwk :=
  match call with
  | .next holder => if (self.next holder).isOk then [holder] else []
  | .batch holders => if (self.batch holders).isOk then holders else []
  | .validate _ => []

/-! ## What a call does -/

variable {self later start : State} {taken : List PublicJwk}

omit [Formats Trust] in
theorem validate_eq_ok {issued : Nat} (h : self.validate issued = .ok ()) :
    self.validCount issued = true ∧ self.holders.Nodup := by
  simp only [State.validate, bind_eq_ok, denyIf_eq_ok, not_or, not_not, Bool.not_eq_false] at h
  obtain ⟨_, -, hc, -, hn⟩ := h
  exact ⟨hc, hn⟩

theorem next_eq_ok {holder : PublicJwk} (h : self.next holder = .ok later) :
    ∃ thumbprint, holder.thumbprint = .ok thumbprint ∧ thumbprint ∉ self.holders ∧ self.holders.length < self.budget.size ∧
      self.budget.mode = .sequential ∧ later = { self with holders := self.holders ++ [thumbprint] } := by
  simp only [State.next, bind_eq_ok, exists_unit, denyIf_eq_ok, pure_eq_ok, not_not, ge_iff_le, not_le, ne_eq] at h
  obtain ⟨hm, -, hl, thumbprint, ht, hn, rfl⟩ := h
  exact ⟨thumbprint, ht, hn, hl, hm, rfl⟩

theorem batch_eq_ok {holders : List PublicJwk} (h : self.batch holders = .ok later) :
    self.holders = [] ∧ holders.length = self.budget.size ∧
      ∃ thumbprints, List.Forall₂ (fun holder t => holder.thumbprint = .ok t) holders thumbprints ∧ thumbprints.Nodup ∧
        later = { self with holders := thumbprints } := by
  simp only [State.batch, bind_eq_ok, exists_unit, denyIf_eq_ok, pure_eq_ok, not_or, not_not, ne_eq] at h
  obtain ⟨hv, ⟨hm, hl⟩, thumbprints, ht, hn, rfl⟩ := h
  have hempty := (validate_eq_ok hv).1
  simp only [State.validCount, hm, Bool.and_eq_true, List.isEmpty_iff] at hempty
  exact ⟨hempty.2, hl, thumbprints, collect_eq_ok.mp ht, (validate_eq_ok hn).2, rfl⟩

/-! ## What every pool keeps -/

/-- What holds of a pool that began as `start` and has taken the keys `taken`. -/
structure Sound (start : State) (taken : List PublicJwk) (s : State) : Prop where
  budget : s.budget = start.budget
  version : s.agePoolVersion = start.agePoolVersion
  thumbprints : List.Forall₂ (fun holder t => holder.thumbprint = .ok t) taken s.holders
  distinct : s.holders.Nodup
  room : s.holders.length ≤ s.budget.size
  whole : s.budget.mode = .batch → s.holders = [] ∨ s.holders.length = s.budget.size

theorem mem_thumbprints {keys : List PublicJwk} {thumbprints : List String} {key : PublicJwk} {t : String}
    (h : List.Forall₂ (fun holder t => holder.thumbprint = .ok t) keys thumbprints) (hm : key ∈ keys) (ht : key.thumbprint = .ok t) :
    t ∈ thumbprints := by
  induction h with
  | nil => cases hm
  | @cons first t' keys thumbprints hfirst _ ih =>
    by_cases he : key = first
    · rw [he, hfirst] at ht
      cases ht
      exact List.mem_cons_self
    · exact List.mem_cons_of_mem _ (ih ((List.mem_cons.mp hm).resolve_left he))

/-- Keys with distinct thumbprints are distinct. -/
theorem nodup_of_thumbprints {keys : List PublicJwk} {thumbprints : List String}
    (h : List.Forall₂ (fun holder t => holder.thumbprint = .ok t) keys thumbprints) (hn : thumbprints.Nodup) : keys.Nodup := by
  induction h with
  | nil => exact List.nodup_nil
  | @cons key t keys thumbprints hk hrest ih =>
    obtain ⟨ht, hn⟩ := List.nodup_cons.mp hn
    exact List.nodup_cons.mpr ⟨fun hmem => ht (mem_thumbprints hrest hmem hk), ih hn⟩

theorem Sound.next (h : Sound start taken self) {holder : PublicJwk} (hn : self.next holder = .ok later) :
    Sound start (taken ++ [holder]) later := by
  obtain ⟨thumbprint, ht, hnew, hl, hm, rfl⟩ := next_eq_ok hn
  refine ⟨h.budget, h.version, ?_, ?_, ?_, fun hb => ?_⟩
  · exact List.rel_append h.thumbprints (.cons ht .nil)
  · refine List.nodup_append.mpr ⟨h.distinct, List.nodup_singleton _, ?_⟩
    intro a ha b hb he
    apply hnew
    rwa [← List.mem_singleton.mp hb, ← he]
  · simpa using hl
  · rw [hm] at hb
    cases hb

theorem Sound.batch (h : Sound start taken self) {holders : List PublicJwk} (hb : self.batch holders = .ok later) :
    Sound start (taken ++ holders) later := by
  obtain ⟨hempty, hl, thumbprints, ht, hn, rfl⟩ := batch_eq_ok hb
  have htaken : taken = [] := by
    have hthumb := h.thumbprints
    rw [hempty] at hthumb
    cases hthumb
    rfl
  have hlen : thumbprints.length = self.budget.size := ht.length_eq.symm.trans hl
  refine ⟨h.budget, h.version, ?_, hn, Nat.le_of_eq hlen, fun _ => .inr hlen⟩
  rw [htaken]
  exact ht

theorem Sound.step (h : Sound start taken self) (call : Call) :
    Sound start (taken ++ takes call self) (AgePool.step call self).2 := by
  cases call with
  | next holder =>
    dsimp only [AgePool.step, takes]
    cases hn : self.next holder with
    | ok later => exact h.next hn
    | error e => simpa [updated, Except.isOk, Except.toBool] using h
  | batch holders =>
    dsimp only [AgePool.step, takes]
    cases hb : self.batch holders with
    | ok later => exact h.batch hb
    | error e => simpa [updated, Except.isOk, Except.toBool] using h
  | validate issued => simpa [AgePool.step, takes] using h

omit [Formats Trust] in
theorem new_eq_ok {budget : Budget} (h : State.new budget = .ok start) : start.budget = budget ∧ start.holders = [] := by
  simp only [State.new, bind_eq_ok, pure_eq_ok] at h
  obtain ⟨_, -, rfl⟩ := h
  exact ⟨rfl, rfl⟩

theorem Sound.made {budget : Budget} (h : State.new budget = .ok start) : Sound start [] start := by
  obtain ⟨-, he⟩ := new_eq_ok h
  refine ⟨rfl, rfl, ?_, ?_, ?_, fun _ => .inl he⟩ <;> rw [he]
  · exact .nil
  · exact List.nodup_nil
  · exact Nat.zero_le _

theorem Sound.run {budget : Budget} (h : State.new budget = .ok start) (calls : List Call) :
    Sound start (gathered AgePool.step takes start calls) (run AgePool.step start calls) := by
  refine run_history (P := fun cs s => Sound start (gathered AgePool.step takes start cs) s) (Sound.made h) ?_ calls
  intro cs call hs
  rw [gathered_snoc]
  exact hs.step call

theorem step_eq_error {call : Call} {error : String} (h : (AgePool.step call self).1 = .error error) :
    (AgePool.step call self).2 = self ∧ takes call self = [] := by
  cases call with
  | next holder =>
    dsimp only [AgePool.step, takes] at h ⊢
    cases hn : self.next holder with
    | ok later => rw [hn] at h; cases h
    | error e => exact ⟨rfl, rfl⟩
  | batch holders =>
    dsimp only [AgePool.step, takes] at h ⊢
    cases hb : self.batch holders with
    | ok later => rw [hb] at h; cases h
    | error e => exact ⟨rfl, rfl⟩
  | validate issued => exact ⟨rfl, rfl⟩

/-- After any calls the budget is the one the pool began with, no key was taken
twice, and a batch is taken whole or not at all; a call that fails changes nothing. -/
theorem age_pool {budget : Budget} (h : State.new budget = .ok start) (calls : List Call) :
    let s := Calls.run step start calls
    let taken := gathered step takes start calls
    s.budget = budget ∧ taken.Nodup ∧ s.holders.Nodup ∧ List.Forall₂ (fun holder t => holder.thumbprint = .ok t) taken s.holders ∧
      s.holders.length ≤ budget.size ∧ (budget.mode = .batch → s.holders = [] ∨ s.holders.length = budget.size) ∧
      (∀ holder later, s.next holder = .ok later → holder ∉ taken ∧ ∃ t, later = { s with holders := s.holders ++ [t] }) ∧
      (∀ holders later, s.batch holders = .ok later → taken = [] ∧ holders.Nodup ∧ holders.length = budget.size ∧
        List.Forall₂ (fun holder t => holder.thumbprint = .ok t) holders later.holders) ∧
      ∀ call error, (step call s).1 = .error error → (step call s).2 = s ∧ takes call s = [] := by
  intro s taken
  have hs : Sound start taken s := Sound.run h calls
  have hbudget : s.budget = budget := hs.budget.trans (new_eq_ok h).1
  refine ⟨hbudget, nodup_of_thumbprints hs.thumbprints hs.distinct, hs.distinct, hs.thumbprints, ?_, ?_, ?_, ?_, ?_⟩
  · rw [← hbudget]
    exact hs.room
  · rw [← hbudget]
    exact hs.whole
  · intro holder later hn
    obtain ⟨t, ht, hnew, -, -, hlater⟩ := next_eq_ok hn
    exact ⟨fun hm => hnew (mem_thumbprints hs.thumbprints hm ht), t, hlater⟩
  · intro holders later hb
    have hlater := hs.batch hb
    obtain ⟨hempty, hl, thumbprints, ht, hn, rfl⟩ := batch_eq_ok hb
    have htaken := hs.thumbprints
    rw [hempty, List.forall₂_nil_right_iff] at htaken
    exact ⟨htaken, nodup_of_thumbprints ht hn, hl.trans (by rw [hbudget]), ht⟩
  · intro call error he
    exact step_eq_error he

end

/-! ## A pool of two keys -/

namespace Sample

def letters (n : Nat) (c : Char) : String := String.ofList (List.replicate n c)

def letter (b : UInt8) : Char := Char.ofNat (65 + (b.toNat + 13) % 26)

/-- Thirty-two bytes are as many letters and eleven more; URLs and attestations are not looked at. -/
@[reducible] def formats : Formats Unit where
  decode64 s := some ((Text.bytes s).take 32)
  encode64 bytes := String.ofList (bytes.map letter) ++ letters 11 'A'
  parse _ := none
  asStr _ := ""
  queryPairs _ := []
  appendPair url _ _ := url
  onCurve _ := true
  verify _ _ _ _ := .error "invalid_proof"

def key (c : Char) : PublicJwk := ⟨"EC", "P-256", letters 32 c ++ letters 11 'A', letters 43 'A'⟩

def budget : Budget := ⟨2, "[\"age_over_18\"]", .batch⟩

def pool : State := ⟨2, budget, []⟩

end Sample

open Sample in
/-- Two keys fill the pool; after that not even they are taken again. -/
theorem age_pool_filled :
    letI := formats
    (gathered step takes pool [.batch [key 'A', key 'A'], .batch [key 'A', key 'B'], .batch [key 'A', key 'B']]).Nodup ∧
      gathered step takes pool [.batch [key 'A', key 'A'], .batch [key 'A', key 'B'], .batch [key 'A', key 'B']] =
        [key 'A', key 'B'] := by
  let _ := formats
  have hnew : State.new budget = .ok pool := by decide +kernel
  exact ⟨(age_pool hnew [.batch [key 'A', key 'A'], .batch [key 'A', key 'B'], .batch [key 'A', key 'B']]).2.1, by decide +kernel⟩

end Mikaki.Identity.Wallet.AgePool
