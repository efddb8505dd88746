import Mikaki.Lib.Calls
import Mikaki.Mls.Trust

/-!
# What the store of pinned devices keeps

One lemma says what a call can do to the store, and each guarantee follows
from it: slots stay apart, time and what was last seen of a device only move
forward, a revoked generation is never accepted again, and a conflict or a
changed key freezes a device until it is accepted anew.
-/

namespace Mikaki.Mls

open Checks

namespace TrustStore

variable [Primitives]

/-! ## What a call does -/

/-- What a call can reply and do. -/
inductive Step (s : TrustStore) : Call → Result Reply → TrustStore → Prop where
  | failed {c : Call} {e : String} {t : Nat} (ht : s.lastTime ≤ t) : Step s c (.error e) { s with lastTime := t }
  | timed {now : Nat} (ht : s.lastTime ≤ now) : Step s (.time now) (.ok .done) { s with lastTime := now }
  | checked {identity : DeviceIdentity} {key : List UInt8} {now : Nat} (h : s.check identity key now = .ok ()) :
      Step s (.check identity key now) (.ok .done) s
  | confirmed {token expected : String} {now : Nat} {b : Binding} (ht : s.lastTime ≤ now)
      (hv : s.verify token now = .ok b) (hb : b.status = .active) (hc : s.checkUnconfirmedRevocation b = .ok ())
      (hf : b.fingerprint = .ok expected) (hn : ∀ p ∈ s.pins, p.slot ≠ b.device.slot) (hl : s.pins.length < 2) :
      Step s (.confirm token expected now) (.ok .done)
        { s with
          lastTime := now
          pins := s.pins ++ [{ accepted := b, latest := b, reviewRequired := false }] }
  | known {token : String} {now : Nat} {b old : Binding} (ht : s.lastTime ≤ now) (hv : s.verify token now = .ok b)
      (hb : b.status = .revoked) (ho : old ∈ s.unconfirmedRevocations) (he : old.device = b.device)
      (hk : old.publicKey = b.publicKey) :
      Step s (.reviewUnconfirmed token now) (.ok (.review "revoked")) { s with lastTime := now }
  | retained {token : String} {now : Nat} {b : Binding} (ht : s.lastTime ≤ now) (hv : s.verify token now = .ok b)
      (hb : b.status = .revoked) :
      Step s (.reviewUnconfirmed token now) (.ok (.review "revoked"))
        { s with
          lastTime := now
          unconfirmedRevocations := s.unconfirmedRevocations ++ [b] }
  | unconfirmed {token text : String} {now : Nat} (ht : s.lastTime ≤ now) (hx : text ≠ "revoked") :
      Step s (.reviewUnconfirmed token now) (.ok (.review text)) { s with lastTime := now }
  | observed {token : String} {now : Nat} {b : Binding} {p q : Pin} {o : Observation} (ht : s.lastTime ≤ now)
      (hv : s.verify token now = .ok b) (hp : s.pin b.device.slot = some p) (ho : TrustStore.observed p b = .ok (o, q)) :
      Step s (.observe token now) (.ok (.observation o)) (setPin { s with lastTime := now } q)
  | accepted {token old new : String} {now : Nat} {b : Binding} {p : Pin} (ht : s.lastTime ≤ now)
      (hv : s.verify token now = .ok b) (hp : s.pin b.device.slot = some p) (ho : p.accepted.fingerprint = .ok old)
      (hn : b.fingerprint = .ok new) (hb : b.status = .active) (hg : p.accepted.device.generation < b.device.generation)
      (hlg : p.latest.device.generation ≤ b.device.generation) (hr : p.accepted.revision < b.revision)
      (hlr : p.latest.revision ≤ b.revision) (hi : p.latest.iat ≤ b.iat)
      (hd : b.publicKey ≠ p.accepted.publicKey)
      (hx : p.latest.status = .revoked → p.latest.device.generation < b.device.generation)
      (he : b.revision = p.latest.revision → b = p.latest) :
      Step s (.acceptChange token old new now) (.ok .done)
        (setPin { s with lastTime := now } { accepted := b, latest := b, reviewRequired := false })

/-- What a call does is what its body does after the time was recorded. -/
theorem step_timed {α : Type} {s : TrustStore} {now : Nat} {c : Call} {f : TrustStore → Result (α × TrustStore)}
    {g : α → Reply} (h : ∀ a s', s.lastTime ≤ now → f { s with lastTime := now } = .ok (a, s') → Step s c (.ok (g a)) s') :
    Step s c (replying g (s.timed now f)).1 (replying g (s.timed now f)).2 := by
  unfold timed
  by_cases hn : now < s.lastTime ∨ now > maxSafe
  · rw [if_pos hn]
    exact .failed (Nat.le_refl s.lastTime)
  · rw [if_neg hn]
    have ht : s.lastTime ≤ now := Nat.le_of_not_lt fun h => hn (.inl h)
    cases hf : f { s with lastTime := now } with
    | error e =>
      simp only [hf]
      exact .failed ht
    | ok p =>
      simp only [hf]
      exact h p.1 p.2 ht hf

theorem step_confirm (s : TrustStore) (token expected : String) (now : Nat) :
    Step s (.confirm token expected now) (step (.confirm token expected now) s).1
      (step (.confirm token expected now) s).2 := by
  refine step_timed fun a s' ht hf => ?_
  simp only [bind_eq_ok, exists_unit, denyIf_eq_ok, pure_eq_ok, Prod.mk.injEq] at hf
  obtain ⟨b, hv, hb, hc, k, hk, he, hn, hl, -, rfl⟩ := hf
  obtain rfl : k = expected := not_not.mp he
  exact .confirmed ht hv (not_not.mp hb) hc hk (fun p hp h => hn ⟨p, hp, h⟩) (Nat.lt_of_not_le hl)

theorem step_reviewUnconfirmed (s : TrustStore) (token : String) (now : Nat) :
    Step s (.reviewUnconfirmed token now) (step (.reviewUnconfirmed token now) s).1
      (step (.reviewUnconfirmed token now) s).2 := by
  refine step_timed fun a s' ht hf => ?_
  obtain ⟨b, hv, hf⟩ := bind_eq_ok.mp hf
  by_cases hb : b.status = .revoked
  · rw [if_pos hb] at hf
    by_cases hk : ∃ old ∈ s.unconfirmedRevocations, old.device = b.device ∧ old.publicKey = b.publicKey
    · rw [if_pos hk] at hf
      obtain ⟨old, ho, he, hk⟩ := hk
      cases hf
      exact .known ht hv hb ho he hk
    · rw [if_neg hk] at hf
      simp only [check_bind_eq_ok, denyIf_eq_ok, pure_eq_ok, Prod.mk.injEq] at hf
      obtain ⟨-, rfl, rfl⟩ := hf
      exact .retained ht hv hb
  · rw [if_neg hb] at hf
    simp only [check_bind_eq_ok, pure_eq_ok, Prod.mk.injEq] at hf
    obtain ⟨-, rfl, rfl⟩ := hf
    exact .unconfirmed ht (by decide)

theorem step_observe (s : TrustStore) (token : String) (now : Nat) :
    Step s (.observe token now) (step (.observe token now) s).1 (step (.observe token now) s).2 := by
  refine step_timed fun a s' ht hf => ?_
  obtain ⟨b, hv, hf⟩ := bind_eq_ok.mp hf
  cases hp : pin { s with lastTime := now } b.device.slot with
  | none =>
    rw [hp] at hf
    cases hf
  | some p =>
    simp only [hp, bind_eq_ok, pure_eq_ok, Prod.mk.injEq] at hf
    obtain ⟨⟨o, q⟩, ho, rfl, rfl⟩ := hf
    exact .observed ht hv hp ho

theorem step_acceptChange (s : TrustStore) (token old new : String) (now : Nat) :
    Step s (.acceptChange token old new now) (step (.acceptChange token old new now) s).1
      (step (.acceptChange token old new now) s).2 := by
  refine step_timed fun a s' ht hf => ?_
  obtain ⟨b, hv, hf⟩ := bind_eq_ok.mp hf
  cases hp : pin { s with lastTime := now } b.device.slot with
  | none =>
    rw [hp] at hf
    cases hf
  | some p =>
    simp only [hp, bind_eq_ok, exists_unit, denyIf_eq_ok, pure_eq_ok, Prod.mk.injEq, not_or, not_and,
      Nat.not_le, Nat.not_lt] at hf
    obtain ⟨before, hbf, hbo, after, haf, han, ⟨hb, hg, hlg, hr, hlr, hi, hd, hx, he⟩, -, rfl⟩ := hf
    obtain rfl : before = old := not_not.mp hbo
    obtain rfl : after = new := not_not.mp han
    exact .accepted ht hv hp hbf haf (not_not.mp hb) hg hlg hr hlr hi hd hx fun h => not_not.mp (he h)

/-- Every call does one of these. -/
theorem step_cases (s : TrustStore) (c : Call) : Step s c (step c s).1 (step c s).2 := by
  cases c with
  | confirm token expected now => exact step_confirm s token expected now
  | reviewUnconfirmed token now => exact step_reviewUnconfirmed s token now
  | observe token now => exact step_observe s token now
  | acceptChange token old new now => exact step_acceptChange s token old new now
  | time now =>
    refine step_timed fun a s' ht hf => ?_
    cases hf
    exact .timed ht
  | check identity key now =>
    cases hc : s.check identity key now with
    | error e =>
      simp only [step, hc, replying]
      exact .failed (Nat.le_refl s.lastTime)
    | ok u =>
      simp only [step, hc, replying]
      exact .checked hc

/-! ## Pins -/

/-- What a check needs to hold of the pin it finds. -/
theorem check_eq_ok {s : TrustStore} {identity : DeviceIdentity} {key : List UInt8} {now : Nat}
    (h : s.check identity key now = .ok ()) :
    s.lastTime ≤ now ∧ ∃ p ∈ s.pins, p.accepted.device = identity ∧ decode p.accepted.publicKey = .ok key ∧
      p.latest.device = identity ∧ p.latest.publicKey = p.accepted.publicKey ∧ p.latest.status = .active ∧
      p.latest.iat ≤ now ∧ now < p.latest.exp ∧ p.reviewRequired = false := by
  unfold check at h
  obtain ⟨ht, h⟩ := check_bind_eq_ok.mp h
  cases hp : s.pin identity.slot with
  | none =>
    rw [hp] at h
    cases h
  | some p =>
    simp only [hp, current, lifetime, bind_eq_ok, exists_unit, denyIf_eq_ok, not_or, Nat.not_lt, Nat.not_le] at h
    obtain ⟨⟨hs, ⟨hq, hd, hk⟩, -, hi, he, -⟩, ha, pinned, hpk, hkey⟩ := h
    have hd := not_not.mp hd
    have ha := not_not.mp ha
    obtain rfl : pinned = key := not_not.mp hkey
    refine ⟨Nat.le_of_not_lt (denyIf_eq_ok.mp ht), p, (Rows.lookup_mem hp).1, ha, hpk, hd.trans ha, not_not.mp hk, ?_, hi,
      he, Bool.eq_false_iff.mpr hq⟩
    cases hst : p.latest.status with
    | active => rfl
    | revoked => exact absurd hst hs

omit [Primitives] in
/-- What an observation that is not refused makes of a pin. -/
theorem observed_cases {p q : Pin} {b : Binding} {o : Observation} (h : TrustStore.observed p b = .ok (o, q)) :
    p.latest.revision ≤ b.revision ∧ p.latest.device.generation ≤ b.device.generation ∧ p.latest.iat ≤ b.iat ∧
    ((o = .registryConflict ∧ q = { p with reviewRequired := true }) ∨
      ((p.latest.status = .revoked → b.status = .active → p.latest.device.generation < b.device.generation) ∧
        (o = .revoked ↔ b.status = .revoked) ∧ o ≠ .registryConflict ∧ (o = .keyChanged → q.reviewRequired = true) ∧
        q.accepted = p.accepted ∧ q.latest = b ∧ (p.reviewRequired = true → q.reviewRequired = true) ∧
        (b.device ≠ p.accepted.device ∨ b.publicKey ≠ p.accepted.publicKey → q.reviewRequired = true))) := by
  unfold TrustStore.observed at h
  obtain ⟨hst, h⟩ := check_bind_eq_ok.mp h
  simp only [denyIf_eq_ok, not_or, Nat.not_lt] at hst
  refine ⟨hst.1, hst.2.1, hst.2.2, ?_⟩
  by_cases hc : b.revision = p.latest.revision ∧ (b.device ≠ p.latest.device ∨ b.publicKey ≠ p.latest.publicKey ∨
      b.status ≠ p.latest.status)
  · rw [if_pos hc] at h
    cases h
    exact .inl ⟨rfl, rfl⟩
  · rw [if_neg hc] at h
    simp only [check_bind_eq_ok, denyIf_eq_ok, pure_eq_ok, Prod.mk.injEq, not_and, Nat.not_le] at h
    obtain ⟨hr, ho, hq⟩ := h
    refine .inr ⟨hr, ?_⟩
    subst hq
    by_cases hb : b.status = .revoked
    · rw [if_pos hb] at ho
      subst ho
      simp +contextual [hb]
    · rw [if_neg hb] at ho
      split at ho <;> subst ho <;> simp_all

omit [Primitives] in
theorem observed_accepted {p q : Pin} {b : Binding} {o : Observation} (h : TrustStore.observed p b = .ok (o, q)) :
    q.accepted = p.accepted := by
  rcases (observed_cases h).2.2.2 with ⟨-, rfl⟩ | ⟨-, -, -, -, ha, -⟩
  · rfl
  · exact ha

/-! ## What every call keeps -/

/-- At most two pins, one to a slot, and what was last seen of a device is of its slot and no older than what was
accepted. -/
structure Sound (s : TrustStore) : Prop where
  few : s.pins.length ≤ 2
  slots : Rows.Unique Pin.slot s.pins
  seen : ∀ p ∈ s.pins, p.latest.device.slot = p.slot ∧ p.accepted.device.generation ≤ p.latest.device.generation

variable {s s' : TrustStore} {c : Call} {r : Result Reply}

omit [Primitives] in
theorem Sound.pin (h : s.Sound) {σ : String × String × String} {p : Pin} : s.pin σ = some p ↔ p ∈ s.pins ∧ p.slot = σ :=
  h.slots.lookup

omit [Primitives] in
theorem Sound.setPin_pins (h : s.Sound) (now : Nat) (q : Pin) :
    (setPin { s with lastTime := now } q).pins = Rows.replace Pin.slot q s.pins := h.slots.setFirst

omit [Primitives] in
theorem Sound.setPin (h : s.Sound) {now : Nat} {p q : Pin} (hp : p ∈ s.pins) (hs : q.slot = p.slot)
    (hq : q.latest.device.slot = q.slot ∧ q.accepted.device.generation ≤ q.latest.device.generation) :
    (TrustStore.setPin { s with lastTime := now } q).Sound := by
  constructor
  · rw [h.setPin_pins]
    exact (Nat.le_of_eq (List.length_map ..)).trans h.few
  · rw [h.setPin_pins]
    exact h.slots.replace h.slots hp hs hs
  · rw [h.setPin_pins]
    intro x hx
    rcases (Rows.mem_replace Pin.slot q hp hs).mp hx with rfl | ⟨hx, -⟩
    · exact hq
    · exact h.seen x hx

theorem Step.sound (h : Step s c r s') (hs : s.Sound) : s'.Sound := by
  cases h with
  | confirmed ht hv hb hc hf hn hl =>
    refine ⟨?_, hs.slots.snoc hn, ?_⟩
    · rw [List.length_append, List.length_singleton]
      exact hl
    · intro p hp
      rcases Rows.mem_snoc.mp hp with hp | rfl
      · exact hs.seen p hp
      · exact ⟨rfl, Nat.le_refl _⟩
  | @observed token now b p q o ht hv hp ho =>
    obtain ⟨hp, hslot⟩ := hs.pin.mp hp
    have ha := observed_accepted ho
    have hqs : q.slot = p.slot := congrArg (·.device.slot) ha
    refine hs.setPin hp hqs ?_
    rw [hqs, ha]
    obtain ⟨hl, hg⟩ := hs.seen p hp
    obtain ⟨-, hgen, -, ⟨-, rfl⟩ | ⟨-, -, -, -, -, hq, -⟩⟩ := observed_cases ho
    · exact ⟨hl, hg⟩
    · rw [hq]
      exact ⟨hslot.symm, hg.trans hgen⟩
  | @accepted token old new now b p ht hv hp =>
    obtain ⟨hp, hslot⟩ := hs.pin.mp hp
    exact hs.setPin hp hslot.symm ⟨rfl, Nat.le_refl _⟩
  | _ => exact ⟨hs.few, hs.slots, hs.seen⟩

theorem Step.lastTime (h : Step s c r s') : s.lastTime ≤ s'.lastTime := by
  cases h with
  | checked h => exact Nat.le_refl _
  | _ => assumption

/-! ## How a pin moves -/

/-- What was last seen of a device moves forward. -/
structure Later (p q : Pin) : Prop where
  slot : q.slot = p.slot
  revision : p.latest.revision ≤ q.latest.revision
  generation : p.latest.device.generation ≤ q.latest.device.generation
  iat : p.latest.iat ≤ q.latest.iat

omit [Primitives] in
theorem Later.refl (p : Pin) : Later p p := ⟨rfl, Nat.le_refl _, Nat.le_refl _, Nat.le_refl _⟩

omit [Primitives] in
theorem Later.trans {p q x : Pin} (h : Later p q) (k : Later q x) : Later p x :=
  ⟨k.slot.trans h.slot, h.revision.trans k.revision, h.generation.trans k.generation, h.iat.trans k.iat⟩

/-- The accepted binding stays, or the call is an explicit change of it with both fingerprints. -/
structure Moved (s : TrustStore) (c : Call) (p q : Pin) : Prop extends Later p q where
  accepted : q.accepted = p.accepted ∨
    (p.accepted.device.generation < q.accepted.device.generation ∧ p.accepted.revision < q.accepted.revision ∧
      ∃ token old new now, c = .acceptChange token old new now ∧ s.verify token now = .ok q.accepted ∧
        p.accepted.fingerprint = .ok old ∧ q.accepted.fingerprint = .ok new)
  latest : q.latest = p.latest ∨ q.latest = q.accepted ∨
    ∃ token now, c = .observe token now ∧ s.verify token now = .ok q.latest

/-- The call confirmed the first binding of a slot by its fingerprint. -/
def Confirmed (s : TrustStore) (c : Call) (q : Pin) : Prop :=
  (∀ p ∈ s.pins, p.slot ≠ q.slot) ∧ q.latest = q.accepted ∧ ∃ token expected now, c = .confirm token expected now ∧
    s.verify token now = .ok q.accepted ∧ q.accepted.fingerprint = .ok expected

theorem Moved.refl (s : TrustStore) (c : Call) (p : Pin) : Moved s c p p := ⟨.refl p, .inl rfl, .inl rfl⟩

theorem Step.moved (h : Step s c r s') (hs : s.Sound) : Rows.Evolves (Moved s c) (Confirmed s c) s.pins s'.pins := by
  cases h with
  | @confirmed token expected now b ht hv hb hc hf hn hl =>
    exact .snoc (Moved.refl s _) ⟨hn, rfl, token, expected, now, rfl, hv, hf⟩
  | @observed token now b p q o ht hv hp ho =>
    obtain ⟨hp, -⟩ := hs.pin.mp hp
    have ha := observed_accepted ho
    rw [hs.setPin_pins]
    refine .replace (Moved.refl s _) hs.slots hp (congrArg (·.device.slot) ha) ?_
    obtain ⟨hrev, hgen, hiat, ⟨-, rfl⟩ | ⟨-, -, -, -, -, hq, -⟩⟩ := observed_cases ho
    · exact ⟨⟨rfl, Nat.le_refl _, Nat.le_refl _, Nat.le_refl _⟩, .inl ha, .inl rfl⟩
    · refine ⟨⟨congrArg (·.device.slot) ha, ?_, ?_, ?_⟩, .inl ha, .inr (.inr ⟨token, now, rfl, ?_⟩)⟩
      · rwa [hq]
      · rwa [hq]
      · rwa [hq]
      · rwa [hq]
  | @accepted token old new now b p ht hv hp ho hn hb hg hlg hr hlr hi hd hx he =>
    obtain ⟨hp, hslot⟩ := hs.pin.mp hp
    rw [hs.setPin_pins]
    exact .replace (Moved.refl s _) hs.slots hp hslot.symm
      ⟨⟨hslot.symm, hlr, hlg, hi⟩, .inr ⟨hg, hr, token, old, new, now, rfl, hv, ho, hn⟩, .inr (.inl rfl)⟩
  | _ => exact .refl (Moved.refl s _)

/-! ## Revocations -/

/-- A call that retains the revocation `b`: of a device without a pin, or as what was last seen of one. -/
def Revokes (s : TrustStore) (c : Call) (b : Binding) : Prop :=
  (∃ token now, c = .reviewUnconfirmed token now ∧ s.verify token now = .ok b ∧ s.pin b.device.slot = none ∧
    (step c s).1 = .ok (.review "revoked")) ∨
  ∃ token now, c = .observe token now ∧ s.verify token now = .ok b ∧ (step c s).1 = .ok (.observation .revoked)

/-- A call that accepts the binding `b`. -/
def Accepts (s : TrustStore) (c : Call) (b : Binding) : Prop :=
  ((∃ token expected now, c = .confirm token expected now ∧ s.verify token now = .ok b) ∨
    ∃ token old new now, c = .acceptChange token old new now ∧ s.verify token now = .ok b) ∧
  (step c s).1 = .ok .done

/-- Nothing of the slot up to generation `g` is accepted any more. -/
structure Barred (σ : String × String × String) (g : Nat) (s : TrustStore) : Prop where
  pinned : ∀ p ∈ s.pins, p.slot = σ → g < p.latest.device.generation ∨
    (g ≤ p.latest.device.generation ∧ p.latest.status = .revoked)
  retained : (∃ p ∈ s.pins, p.slot = σ) ∨
    ∃ old ∈ s.unconfirmedRevocations, old.device.slot = σ ∧ g ≤ old.device.generation

variable {σ : String × String × String} {g : Nat}

omit [Primitives] in
theorem Barred.setPin (h : Barred σ g s) (hs : s.Sound) {now : Nat} {p q : Pin} (hp : p ∈ s.pins) (hq : q.slot = p.slot)
    (hb : q.slot = σ → g < q.latest.device.generation ∨
      (g ≤ q.latest.device.generation ∧ q.latest.status = .revoked)) :
    Barred σ g (TrustStore.setPin { s with lastTime := now } q) := by
  constructor
  · rw [hs.setPin_pins]
    intro x hx hxs
    rcases (Rows.mem_replace Pin.slot q hp hq).mp hx with rfl | ⟨hx, -⟩
    · exact hb hxs
    · exact h.pinned x hx hxs
  · rw [hs.setPin_pins]
    rcases h.retained with ⟨x, hx, hxs⟩ | hold
    · by_cases he : x.slot = q.slot
      · exact .inl ⟨q, Rows.replace_mem Pin.slot q hp hq, he.symm.trans hxs⟩
      · exact .inl ⟨x, (Rows.mem_replace Pin.slot q hp hq).mpr (.inr ⟨hx, he⟩), hxs⟩
    · exact .inr hold

omit [Primitives] in
/-- What a confirmation finds in the ledger bars it. -/
theorem Barred.confirm (h : Barred σ g s) {b : Binding} (hn : ∀ p ∈ s.pins, p.slot ≠ b.device.slot)
    (hc : s.checkUnconfirmedRevocation b = .ok ()) (hb : b.device.slot = σ) : g < b.device.generation := by
  rcases h.retained with ⟨p, hp, hps⟩ | ⟨old, ho, hos, hg⟩
  · exact absurd (hps.trans hb.symm) (hn p hp)
  · refine Nat.lt_of_not_le fun hle => denyIf_eq_ok.mp hc ⟨old, ho, hos.trans hb.symm, .inl (hle.trans hg)⟩

omit [Primitives] in
/-- What was last seen of a pinned device bars a change of it. -/
theorem Barred.change (h : Barred σ g s) {b : Binding} {p : Pin} (hp : p ∈ s.pins) (hs : p.slot = b.device.slot)
    (hb : b.device.slot = σ) (hlg : p.latest.device.generation ≤ b.device.generation)
    (hx : p.latest.status = .revoked → p.latest.device.generation < b.device.generation) : g < b.device.generation := by
  rcases h.pinned p hp (hs.trans hb) with hg | ⟨hg, hr⟩
  · exact Nat.lt_of_lt_of_le hg hlg
  · exact Nat.lt_of_le_of_lt hg (hx hr)

theorem Step.barred (h : Step s c r s') (hs : s.Sound) (hb : Barred σ g s) : Barred σ g s' := by
  cases h with
  | @confirmed token expected now b ht hv hst hc hf hn hl =>
    refine ⟨fun p hp hps => ?_, ?_⟩
    · rcases Rows.mem_snoc.mp hp with hp | rfl
      · exact hb.pinned p hp hps
      · exact .inl (hb.confirm hn hc hps)
    · rcases hb.retained with ⟨p, hp, hps⟩ | hold
      · exact .inl ⟨p, List.mem_append_left _ hp, hps⟩
      · exact .inr hold
  | retained ht hv hst =>
    refine ⟨hb.pinned, hb.retained.imp_right fun ⟨old, ho, h⟩ => ⟨old, List.mem_append_left _ ho, h⟩⟩
  | @observed token now b p q o ht hv hp ho =>
    obtain ⟨hp, hslot⟩ := hs.pin.mp hp
    have hqs : q.slot = p.slot := congrArg (·.device.slot) (observed_accepted ho)
    refine hb.setPin hs hp hqs fun hq => ?_
    have hold := hb.pinned p hp (hqs.symm.trans hq)
    obtain ⟨-, hgen, -, ⟨-, rfl⟩ | ⟨hr, -, -, -, -, hl, -⟩⟩ := observed_cases ho
    · exact hold
    · rw [hl]
      rcases hold with hg | ⟨hg, hrev⟩
      · exact .inl (Nat.lt_of_lt_of_le hg hgen)
      · -- A revoked generation is left only for a newer one, or stays revoked.
        cases hst : b.status with
        | active => exact .inl (Nat.lt_of_le_of_lt hg (hr hrev hst))
        | revoked => exact .inr ⟨hg.trans hgen, rfl⟩
  | @accepted token old new now b p ht hv hp ho hn hst hg hlg hr hlr hi hd hx he =>
    obtain ⟨hp, hslot⟩ := hs.pin.mp hp
    exact hb.setPin hs hp hslot.symm fun hq => .inl (hb.change hp hslot hq hlg hx)
  | _ => exact ⟨hb.pinned, hb.retained⟩

theorem Revokes.barred {b : Binding} (h : Revokes s c b) (hs : s.Sound) :
    Barred b.device.slot b.device.generation (step c s).2 := by
  have hstep := step_cases s c
  rcases h with ⟨token, now, rfl, hv, hn, hr⟩ | ⟨token, now, rfl, hv, hr⟩
  · have hnone : ∀ p ∈ s.pins, p.slot = b.device.slot → False := fun p hp he => Rows.lookup_eq_none.mp hn p hp he
    rw [hr] at hstep
    generalize (step (.reviewUnconfirmed token now) s).2 = s' at hstep
    cases hstep with
    | @known _ _ x old ht hx hb ho he hk =>
      obtain rfl : x = b := Except.ok.inj (hx.symm.trans hv)
      exact ⟨fun p hp he => absurd he (hnone p hp), .inr ⟨old, ho, by rw [he], by rw [he]⟩⟩
    | unconfirmed ht hx => exact absurd rfl hx
    | @retained _ _ x ht hx hb =>
      obtain rfl : x = b := Except.ok.inj (hx.symm.trans hv)
      exact ⟨fun p hp he => absurd he (hnone p hp), .inr ⟨x, List.mem_append_right _ List.mem_cons_self, rfl, Nat.le_refl _⟩⟩
  · rw [hr] at hstep
    generalize (step (.observe token now) s).2 = s' at hstep
    cases hstep with
    | @observed _ _ x p q o ht hx hp ho =>
      obtain rfl : x = b := Except.ok.inj (hx.symm.trans hv)
      obtain ⟨hp, hslot⟩ := hs.pin.mp hp
      have hqs : q.slot = p.slot := congrArg (·.device.slot) (observed_accepted ho)
      obtain ⟨-, -, -, ⟨ho', -⟩ | ⟨-, hst, -, -, -, hl, -⟩⟩ := observed_cases ho
      · cases ho'
      · constructor
        · rw [hs.setPin_pins]
          intro y hy hys
          rcases (Rows.mem_replace Pin.slot q hp hqs).mp hy with rfl | ⟨hy, hne⟩
          · exact .inr (by rw [hl]; exact ⟨Nat.le_refl _, hst.mp rfl⟩)
          · exact absurd (hys.trans (hqs.trans hslot).symm) hne
        · rw [hs.setPin_pins]
          exact .inl ⟨q, Rows.replace_mem Pin.slot q hp hqs, hqs.trans hslot⟩

/-- A barred generation is not accepted. -/
theorem Accepts.newer {b : Binding} (h : Accepts s c b) (hs : s.Sound) (hb : Barred b.device.slot g s) :
    g < b.device.generation := by
  have hstep := step_cases s c
  obtain ⟨hc, hr⟩ := h
  rw [hr] at hstep
  rcases hc with ⟨token, expected, now, rfl, hv⟩ | ⟨token, old, new, now, rfl, hv⟩
  · generalize (step (.confirm token expected now) s).2 = s' at hstep
    cases hstep with
    | @confirmed _ _ _ x ht hx hst hc hf hn hl =>
      obtain rfl : x = b := Except.ok.inj (hx.symm.trans hv)
      exact hb.confirm hn hc rfl
  · generalize (step (.acceptChange token old new now) s).2 = s' at hstep
    cases hstep with
    | @accepted _ _ _ _ x p ht hx hp ho hn hst hg hlg hr hlr hi hd hz he =>
      obtain rfl : x = b := Except.ok.inj (hx.symm.trans hv)
      obtain ⟨hp, hslot⟩ := hs.pin.mp hp
      exact hb.change hp hslot rfl hlg hz

/-- A barred generation does not pass a check. -/
theorem Barred.check (hb : Barred σ g s) {identity : DeviceIdentity} {key : List UInt8} {now : Nat}
    (h : s.check identity key now = .ok ()) (hi : identity.slot = σ) : g < identity.generation := by
  obtain ⟨-, p, hp, ha, -, hl, -, hst, -⟩ := check_eq_ok h
  have hps : p.slot = σ := by
    unfold Pin.slot
    rw [ha, hi]
  rcases hb.pinned p hp hps with hg | ⟨-, hr⟩
  · rwa [hl] at hg
  · rw [hst] at hr
    cases hr

/-! ## Frozen devices -/

/-- The device of the slot waits for a review. -/
def Frozen (σ : String × String × String) (s : TrustStore) : Prop := ∃ p ∈ s.pins, p.slot = σ ∧ p.reviewRequired = true

/-- A call that accepts a binding of the slot. -/
def AcceptsSlot (σ : String × String × String) (c : Call) (s : TrustStore) : Prop :=
  ∃ b, Accepts s c b ∧ b.device.slot = σ

/-- An observation of the slot that was a conflict, or that names another device or key than the accepted one. -/
def Departs (s : TrustStore) (c : Call) (σ : String × String × String) : Prop :=
  ∃ token now b p o, c = .observe token now ∧ s.verify token now = .ok b ∧ b.device.slot = σ ∧ s.pin σ = some p ∧
    (step c s).1 = .ok (.observation o) ∧
    (o = .registryConflict ∨ o = .keyChanged ∨ b.device ≠ p.accepted.device ∨ b.publicKey ≠ p.accepted.publicKey)

omit [Primitives] in
theorem Frozen.setPin (h : Frozen σ s) (hs : s.Sound) {now : Nat} {p q : Pin} (hp : p ∈ s.pins) (hq : q.slot = p.slot)
    (hr : p.slot = σ → p.reviewRequired = true → q.reviewRequired = true) :
    Frozen σ (TrustStore.setPin { s with lastTime := now } q) := by
  obtain ⟨x, hx, hxs, hxr⟩ := h
  unfold Frozen
  rw [hs.setPin_pins]
  by_cases he : x.slot = q.slot
  · obtain rfl : x = p := hs.slots.eq hx hp (he.trans hq)
    exact ⟨q, Rows.replace_mem Pin.slot q hp hq, hq.trans hxs, hr hxs hxr⟩
  · exact ⟨x, (Rows.mem_replace Pin.slot q hp hq).mpr (.inr ⟨hx, he⟩), hxs, hxr⟩

theorem Step.frozen (h : Step s c r s') (hr : (step c s).1 = r) (hs : s.Sound) (hn : ¬AcceptsSlot σ c s)
    (hf : Frozen σ s) : Frozen σ s' := by
  cases h with
  | confirmed =>
    obtain ⟨p, hp, h⟩ := hf
    exact ⟨p, List.mem_append_left _ hp, h⟩
  | @observed token now b p q o ht hv hp ho =>
    obtain ⟨hp, -⟩ := hs.pin.mp hp
    refine hf.setPin hs hp (congrArg (·.device.slot) (observed_accepted ho)) fun _ hpr => ?_
    obtain ⟨-, -, -, ⟨-, rfl⟩ | ⟨-, -, -, -, -, -, hq, -⟩⟩ := observed_cases ho
    · rfl
    · exact hq hpr
  | @accepted token old new now b p ht hv hp =>
    obtain ⟨hp, hslot⟩ := hs.pin.mp hp
    refine hf.setPin hs hp hslot.symm fun hps _ => ?_
    exact absurd ⟨b, ⟨.inr ⟨token, old, new, now, rfl, hv⟩, hr⟩, hslot.symm.trans hps⟩ hn
  | _ => exact hf

theorem Departs.frozen (h : Departs s c σ) (hs : s.Sound) : Frozen σ (step c s).2 := by
  obtain ⟨token, now, b, p, o, rfl, hv, hb, hp, hr, hd⟩ := h
  have hstep := step_cases s (.observe token now)
  rw [hr] at hstep
  generalize (step (.observe token now) s).2 = s' at hstep
  cases hstep with
  | @observed _ _ x p' q o ht hx hp' ho =>
    obtain rfl : x = b := Except.ok.inj (hx.symm.trans hv)
    rw [hb] at hp'
    obtain rfl : p' = p := Option.some.inj (hp'.symm.trans hp)
    obtain ⟨hp, hslot⟩ := hs.pin.mp hp
    have hqs : q.slot = p'.slot := congrArg (·.device.slot) (observed_accepted ho)
    unfold Frozen
    rw [hs.setPin_pins]
    refine ⟨q, Rows.replace_mem Pin.slot q hp hqs, hqs.trans hslot, ?_⟩
    obtain ⟨-, -, -, ⟨-, rfl⟩ | ⟨-, -, hno, hkey, -, -, -, hq⟩⟩ := observed_cases ho
    · rfl
    · rcases hd with h | h | h
      · exact absurd h hno
      · exact hkey h
      · exact hq h

theorem Frozen.check (hf : Frozen σ s) (hs : s.Sound) {identity : DeviceIdentity} {key : List UInt8} {now : Nat}
    (hi : identity.slot = σ) : s.check identity key now ≠ .ok () := by
  intro h
  obtain ⟨-, p, hp, ha, -, -, -, -, -, -, hr⟩ := check_eq_ok h
  obtain ⟨x, hx, hxs, hxr⟩ := hf
  have hps : p.slot = σ := by
    unfold Pin.slot
    rw [ha, hi]
  rw [hs.slots.eq hx hp (hxs.trans hps.symm), hr] at hxr
  cases hxr

/-! ## Runs -/

abbrev run : TrustStore → List Call → TrustStore := Calls.run step

omit [Primitives] in
theorem sound_start (authorities : List Authority) : (start authorities).Sound :=
  ⟨Nat.zero_le 2, Rows.Unique.nil, fun p hp => by cases hp⟩

theorem step_sound (c : Call) (s : TrustStore) (hs : s.Sound) : (step c s).2.Sound := (step_cases s c).sound hs

theorem run_sound (hs : s.Sound) (cs : List Call) : (run s cs).Sound := Calls.run_invariant step_sound hs cs

theorem run_barred (hs : s.Sound) (hb : Barred σ g s) (cs : List Call) : (run s cs).Sound ∧ Barred σ g (run s cs) :=
  Calls.run_invariant (P := fun s => s.Sound ∧ Barred σ g s)
    (fun c s h => ⟨step_sound c s h.1, (step_cases s c).barred h.1 h.2⟩) ⟨hs, hb⟩ cs

theorem run_later (hs : s.Sound) (cs : List Call) :
    s.lastTime ≤ (run s cs).lastTime ∧ ∀ p ∈ s.pins, ∃ q ∈ (run s cs).pins, Later p q := by
  refine Calls.run_rel (I := Sound) (R := fun s t => s.lastTime ≤ t.lastTime ∧ ∀ p ∈ s.pins, ∃ q ∈ t.pins, Later p q)
    (fun s => ⟨Nat.le_refl _, fun p hp => ⟨p, hp, .refl p⟩⟩) ?_ step_sound ?_ hs cs
  · intro a b c hab hbc
    refine ⟨hab.1.trans hbc.1, fun p hp => ?_⟩
    obtain ⟨q, hq, hpq⟩ := hab.2 p hp
    obtain ⟨x, hx, hqx⟩ := hbc.2 q hq
    exact ⟨x, hx, hpq.trans hqx⟩
  · intro c s h
    refine ⟨(step_cases s c).lastTime, fun p hp => ?_⟩
    obtain ⟨q, hq, hpq⟩ := ((step_cases s c).moved h).forward p hp
    exact ⟨q, hq, hpq.toLater⟩

theorem retained_observation (hs : s.Sound) {token : String} {now : Nat} {b : Binding} {o : Observation}
    (hv : s.verify token now = .ok b) (hr : (step (.observe token now) s).1 = .ok (.observation o))
    (hn : o ≠ .registryConflict) :
    ∃ q ∈ (step (.observe token now) s).2.pins, q.slot = b.device.slot ∧ q.latest = b := by
  have hstep := step_cases s (.observe token now)
  rw [hr] at hstep
  generalize (step (.observe token now) s).2 = s' at hstep
  cases hstep with
  | @observed _ _ x p q o ht hx hp ho =>
    obtain rfl : x = b := Except.ok.inj (hx.symm.trans hv)
    obtain ⟨hp, hslot⟩ := hs.pin.mp hp
    have hqs : q.slot = p.slot := congrArg (·.device.slot) (observed_accepted ho)
    rw [hs.setPin_pins]
    refine ⟨q, Rows.replace_mem Pin.slot q hp hqs, hqs.trans hslot, ?_⟩
    obtain ⟨-, -, -, ⟨h, -⟩ | ⟨-, -, -, -, -, hl, -⟩⟩ := observed_cases ho
    · exact absurd h hn
    · exact hl

/-- In every sequence of calls: slots stay apart, accepted bindings change only by explicit comparison, what was seen
moves forward, revoked generations and frozen devices stay out. -/
theorem trust_store (authorities : List Authority) (cs : List Call) :
    let s := run (start authorities) cs
    (s.pins.length ≤ 2 ∧ Rows.Unique Pin.slot s.pins) ∧
    (∀ c, Rows.Evolves (Moved s c) (Confirmed s c) s.pins (step c s).2.pins) ∧
    (∀ ds, s.lastTime ≤ (run s ds).lastTime ∧ ∀ p ∈ s.pins, ∃ q ∈ (run s ds).pins, Later p q) ∧
    (∀ token now b o, s.verify token now = .ok b → (step (.observe token now) s).1 = .ok (.observation o) →
      o ≠ .registryConflict →
      ∃ q ∈ (step (.observe token now) s).2.pins, q.slot = b.device.slot ∧ q.latest = b) ∧
    (∀ c b, Revokes s c b → ∀ ds,
      (∀ d x, Accepts (run (step c s).2 ds) d x → x.device.slot = b.device.slot →
        b.device.generation < x.device.generation) ∧
      ∀ identity key now, (run (step c s).2 ds).check identity key now = .ok () → identity.slot = b.device.slot →
        b.device.generation < identity.generation) ∧
    (∀ identity key now, s.check identity key now = .ok () →
      s.lastTime ≤ now ∧ ∃ p ∈ s.pins, p.accepted.device = identity ∧ decode p.accepted.publicKey = .ok key ∧
        p.latest.device = identity ∧ p.latest.publicKey = p.accepted.publicKey ∧ p.latest.status = .active ∧
        p.latest.iat ≤ now ∧ now < p.latest.exp ∧ p.reviewRequired = false) ∧
    ∀ c σ, Departs s c σ → ∀ ds, Calls.Avoids step (AcceptsSlot σ) (step c s).2 ds →
      ∀ identity key now, identity.slot = σ → (run (step c s).2 ds).check identity key now ≠ .ok () := by
  intro s
  have hs : s.Sound := run_sound (sound_start authorities) cs
  refine ⟨⟨hs.few, hs.slots⟩, fun c => (step_cases s c).moved hs, run_later hs, ?_, ?_, ?_, ?_⟩
  · intro token now b o hv hr hn
    exact retained_observation hs hv hr hn
  · intro c b hr ds
    obtain ⟨ht, hb⟩ := run_barred (step_sound c s hs) (hr.barred hs) ds
    refine ⟨fun d x ha hx => ?_, fun identity key now hc hi => hb.check hc hi⟩
    rw [← hx] at hb
    exact ha.newer ht hb
  · intro identity key now h
    exact check_eq_ok h
  · intro c σ hd ds ha identity key now hi
    have hf : Frozen σ (run (step c s).2 ds) := Calls.avoids_invariant step_sound
      (fun c s hs hn hf => (step_cases s c).frozen rfl hs hn hf) (step_sound c s hs) (hd.frozen hs) ha
    exact hf.check (run_sound (step_sound c s hs) ds) hi

end TrustStore

end Mikaki.Mls
