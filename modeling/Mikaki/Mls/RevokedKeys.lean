import Mikaki.Mls.TrustSound

/-!
# Revoked keys

A revocation is held in the ledger of devices that were not confirmed yet, or
as what was last seen of a pinned one. `confirm` compares keys with the ledger;
`acceptChange` compares with neither, and what was last seen is written over.
Where no call falls into this gap, a revoked key stays out.
-/

namespace Mikaki.Mls.TrustStore

open Checks

section
variable [Primitives]

/-- A call that retains the revocation `b`, of a device with or without a pin. -/
def Retains (s : TrustStore) (c : Call) (b : Binding) : Prop :=
  ∃ token now, s.verify token now = .ok b ∧
    ((c = .reviewUnconfirmed token now ∧ (step c s).1 = .ok (.review "revoked")) ∨
      (c = .observe token now ∧ (step c s).1 = .ok (.observation .revoked)))

/-! ## What the store still holds -/

def InLedger (σ : String × String × String) (k : String) (s : TrustStore) : Prop :=
  ∃ old ∈ s.unconfirmedRevocations, old.device.slot = σ ∧ old.publicKey = k

def LastSeen (σ : String × String × String) (k : String) (s : TrustStore) : Prop :=
  ∃ p ∈ s.pins, p.slot = σ ∧ p.latest.status = .revoked ∧ p.latest.publicKey = k

/-- A revocation of the key is held in one of the two places. -/
def Held (σ : String × String × String) (k : String) (s : TrustStore) : Prop := InLedger σ k s ∨ LastSeen σ k s

/-- A newer binding takes the place of a revocation that only the pin has, and is no revocation of that key itself. -/
def WritesOver (s : TrustStore) (p : Pin) (b : Binding) : Prop :=
  p.latest.status = .revoked ∧ p.latest.revision < b.revision ∧
    (b.status = .active → p.latest.device.generation < b.device.generation) ∧
    ¬(b.status = .revoked ∧ b.publicKey = p.latest.publicKey) ∧ ¬InLedger p.slot p.latest.publicKey s

/-- A change to a key whose revocation is held, or a revocation written over. -/
def Gap (c : Call) (s : TrustStore) : Prop :=
  ∃ token now b p, s.verify token now = .ok b ∧ s.pin b.device.slot = some p ∧
    (((∃ old new, c = .acceptChange token old new now) ∧ b.status = .active ∧
        p.accepted.device.generation < b.device.generation ∧ b.publicKey ≠ p.accepted.publicKey ∧
        (Held b.device.slot b.publicKey s ∨ WritesOver s p b)) ∨
      (c = .observe token now ∧ WritesOver s p b))

variable {s s' : TrustStore} {c : Call} {r : Result Reply} {σ : String × String × String} {k : String}

omit [Primitives] in
/-- A pin that is put in the place of another leaves the rest of what is held. -/
theorem Held.setPin (h : Held σ k s) (hs : s.Sound) {now : Nat} {p q : Pin} (hp : p ∈ s.pins) (hq : q.slot = p.slot)
    (hk : p.slot = σ → p.latest.status = .revoked → p.latest.publicKey = k →
      InLedger σ k s ∨ (q.latest.status = .revoked ∧ q.latest.publicKey = k)) :
    Held σ k (TrustStore.setPin { s with lastTime := now } q) := by
  rcases h with hl | ⟨x, hx, hxs, hxr, hxk⟩
  · exact .inl hl
  · by_cases he : x.slot = q.slot
    · obtain rfl : x = p := hs.slots.eq hx hp (he.trans hq)
      rcases hk hxs hxr hxk with hl | hrev
      · exact .inl hl
      · refine .inr ⟨q, ?_, hq.trans hxs, hrev⟩
        rw [hs.setPin_pins]
        exact Rows.replace_mem Pin.slot q hp hq
    · refine .inr ⟨x, ?_, hxs, hxr, hxk⟩
      rw [hs.setPin_pins]
      exact (Rows.mem_replace Pin.slot q hp hq).mpr (.inr ⟨hx, he⟩)

omit [Primitives] in
/-- An observation under the revision last seen sees the same key in the same state. -/
theorem observed_same {p q : Pin} {b : Binding} {o : Observation} (h : TrustStore.observed p b = .ok (o, q))
    (hr : b.revision = p.latest.revision) : q.latest.status = p.latest.status ∧ q.latest.publicKey = p.latest.publicKey := by
  unfold TrustStore.observed at h
  obtain ⟨-, h⟩ := check_bind_eq_ok.mp h
  by_cases hc : b.revision = p.latest.revision ∧ (b.device ≠ p.latest.device ∨ b.publicKey ≠ p.latest.publicKey ∨
      b.status ≠ p.latest.status)
  · rw [if_pos hc] at h
    cases h
    exact ⟨rfl, rfl⟩
  · rw [if_neg hc] at h
    simp only [check_bind_eq_ok, pure_eq_ok, Prod.mk.injEq] at h
    obtain ⟨-, -, rfl⟩ := h
    have hsame : ¬(b.device ≠ p.latest.device ∨ b.publicKey ≠ p.latest.publicKey ∨ b.status ≠ p.latest.status) :=
      fun hd => hc ⟨hr, hd⟩
    simp only [ne_eq, not_or, not_not] at hsame
    exact ⟨hsame.2.2, hsame.2.1⟩

/-- Outside the gap a call keeps what is held. -/
theorem Step.held (h : Step s c r s') (hs : s.Sound) (hn : ¬Gap c s) (hk : Held σ k s) : Held σ k s' := by
  cases h with
  | confirmed ht hv hb hc hf hf' hl =>
    rcases hk with hl | ⟨p, hp, hps⟩
    · exact .inl hl
    · exact .inr ⟨p, List.mem_append_left _ hp, hps⟩
  | retained ht hv hb =>
    rcases hk with ⟨old, ho, hold⟩ | hp
    · exact .inl ⟨old, List.mem_append_left _ ho, hold⟩
    · exact .inr hp
  | @observed token now b p q o ht hv hp ho =>
    obtain ⟨hmem, hslot⟩ := hs.pin.mp hp
    have hqs : q.slot = p.slot := congrArg (·.device.slot) (observed_accepted ho)
    refine hk.setPin hs hmem hqs fun hσ hrev hkey => ?_
    obtain ⟨hle, -, -, hcases⟩ := observed_cases ho
    by_cases hlt : p.latest.revision < b.revision
    · rcases hcases with ⟨-, rfl⟩ | ⟨hgen, -, -, -, -, hl, -⟩
      · exact .inr ⟨hrev, hkey⟩
      · by_cases hledger : InLedger σ k s
        · exact .inl hledger
        · rw [hl]
          by_contra hno
          rw [← hkey] at hno
          refine hn ⟨token, now, b, p, hv, hp, .inr ⟨rfl, hrev, hlt, hgen hrev, fun hd => hno (.inr hd), ?_⟩⟩
          rw [hσ, hkey]
          exact hledger
    · obtain ⟨hst, hpk⟩ := observed_same ho (Nat.le_antisymm (Nat.le_of_not_lt hlt) hle)
      exact .inr ⟨hst.trans hrev, hpk.trans hkey⟩
  | @accepted token old new now b p ht hv hp ho hn' hb hg hlg hr hlr hi hd hx he =>
    obtain ⟨hmem, hslot⟩ := hs.pin.mp hp
    refine hk.setPin hs hmem hslot.symm fun hσ hrev hkey => ?_
    by_cases hledger : InLedger σ k s
    · exact .inl hledger
    · have hlt : p.latest.revision < b.revision := by
        refine Nat.lt_of_le_of_ne hlr fun heq => ?_
        rw [he heq.symm, hrev] at hb
        cases hb
      refine absurd ⟨token, now, b, p, hv, hp, .inl ⟨⟨old, new, rfl⟩, hb, hg, hd, .inr ⟨hrev, hlt, fun _ => hx hrev, ?_, ?_⟩⟩⟩ hn
      · intro hd
        rw [hb] at hd
        cases hd.1
      · rw [hσ, hkey]
        exact hledger
  | _ => exact hk

/-- What was retained is held. -/
theorem Retains.held {b : Binding} (h : Retains s c b) (hs : s.Sound) : Held b.device.slot b.publicKey (step c s).2 := by
  obtain ⟨token, now, hv, h⟩ := h
  have hstep := step_cases s c
  rcases h with ⟨rfl, hr⟩ | ⟨rfl, hr⟩
  · rw [hr] at hstep
    generalize (step (.reviewUnconfirmed token now) s).2 = s' at hstep
    cases hstep with
    | @known _ _ x old ht hx hb ho he hk =>
      obtain rfl : x = b := Except.ok.inj (hx.symm.trans hv)
      exact .inl ⟨old, ho, by rw [he], hk⟩
    | unconfirmed ht hx => exact absurd rfl hx
    | @retained _ _ x ht hx hb =>
      obtain rfl : x = b := Except.ok.inj (hx.symm.trans hv)
      exact .inl ⟨x, List.mem_append_right _ List.mem_cons_self, rfl, rfl⟩
  · rw [hr] at hstep
    generalize (step (.observe token now) s).2 = s' at hstep
    cases hstep with
    | @observed _ _ x p q o ht hx hp ho =>
      obtain rfl : x = b := Except.ok.inj (hx.symm.trans hv)
      obtain ⟨hp, hslot⟩ := hs.pin.mp hp
      have hqs : q.slot = p.slot := congrArg (·.device.slot) (observed_accepted ho)
      obtain ⟨-, -, -, ⟨ho', -⟩ | ⟨-, hst, -, -, -, hl, -⟩⟩ := observed_cases ho
      · cases ho'
      · refine .inr ⟨q, ?_, hqs.trans hslot, by rw [hl]; exact hst.mp rfl, by rw [hl]⟩
        rw [hs.setPin_pins]
        exact Rows.replace_mem Pin.slot q hp hqs

/-- Outside the gap no call accepts a key whose revocation is held. -/
theorem Accepts.unrevoked {b : Binding} (h : Accepts s c b) (hn : ¬Gap c s) (hk : Held b.device.slot k s) : b.publicKey ≠ k := by
  rintro rfl
  have hstep := step_cases s c
  obtain ⟨hc, hr⟩ := h
  rw [hr] at hstep
  rcases hc with ⟨token, expected, now, rfl, hv⟩ | ⟨token, old, new, now, rfl, hv⟩
  · generalize (step (.confirm token expected now) s).2 = s' at hstep
    cases hstep with
    | @confirmed _ _ _ x ht hx hst hc hf hfree hl =>
      obtain rfl : x = b := Except.ok.inj (hx.symm.trans hv)
      rcases hk with ⟨old, ho, hos, hok⟩ | ⟨p, hp, hps, -⟩
      · exact denyIf_eq_ok.mp hc ⟨old, ho, hos, .inr hok.symm⟩
      · exact hfree p hp hps
  · generalize (step (.acceptChange token old new now) s).2 = s' at hstep
    cases hstep with
    | @accepted _ _ _ _ x p ht hx hp ho hf hst hg hlg hr hlr hi hd hz he =>
      obtain rfl : x = b := Except.ok.inj (hx.symm.trans hv)
      exact hn ⟨token, now, x, p, hx, hp, .inl ⟨⟨old, new, rfl⟩, hst, hg, hd, .inl hk⟩⟩

theorem run_held (hs : s.Sound) (hk : Held σ k s) {cs : List Call} (h : Calls.Avoids step Gap s cs) : Held σ k (run s cs) :=
  Calls.avoids_invariant step_sound (fun c s hs hn hk => (step_cases s c).held hs hn hk) hs hk h

/-- In every sequence of calls that keeps out of the gap, a key once seen revoked is not accepted again. -/
theorem revoked_keys (authorities : List Authority) (cs ds : List Call) (c d : Call) (b x : Binding)
    (hr : Retains (run (start authorities) cs) c b) (hn : Calls.Avoids step Gap (step c (run (start authorities) cs)).2 ds)
    (hd : ¬Gap d (run (step c (run (start authorities) cs)).2 ds))
    (hx : Accepts (run (step c (run (start authorities) cs)).2 ds) d x) (hs : x.device.slot = b.device.slot) :
    x.publicKey ≠ b.publicKey := by
  have hsound : (run (start authorities) cs).Sound := run_sound (sound_start authorities) cs
  have hafter := step_sound c _ hsound
  have hheld := run_held hafter (hr.held hsound) hn
  rw [← hs] at hheld
  exact hx.unrevoked hd hheld

end

/-! ## A device that comes back -/

/-- A token with the payload `c`. -/
def token (c : Char) : String := String.ofList ['h', '.', c, '.', 's']

theorem parts_token {c : Char} (hc : c ∈ ['1', '2', '3', '4']) : (token c).splitOn "." = ["h", String.singleton c, "s"] := by
  have he : ("." == "") = false := by decide
  unfold String.splitOn
  rw [he, if_neg (by decide)]
  simp only [List.mem_cons, List.not_mem_nil, or_false] at hc
  rcases hc with rfl | rfl | rfl | rfl
  all_goals
    rw [String.splitOnAux, if_neg (by decide), if_neg (by decide), String.splitOnAux, if_neg (by decide), if_pos (by decide)]
    dsimp only
    rw [if_pos (by decide), String.splitOnAux, if_neg (by decide), if_neg (by decide), String.splitOnAux, if_neg (by decide),
      if_pos (by decide)]
    dsimp only
    rw [if_pos (by decide), String.splitOnAux, if_neg (by decide), if_neg (by decide), String.splitOnAux, if_pos (by decide)]
    decide

def identity (generation : Nat) : DeviceIdentity :=
  ⟨"i", "00000000-0000-4000-8000-000000000000", "00000000-0000-4000-8000-000000000001", generation⟩

def firstKey : String := "aaaaaaaaaaaaaaaaaaaaaaaaaaaaaaaa"
def nextKey : String := "bbbbbbbbbbbbbbbbbbbbbbbbbbbbbbbb"

/-- The device of generation 1, the revocation of its generation 2, and generation 3 under the revoked key and under the first. -/
def sampleBinding (c : Char) : Binding :=
  match c with
  | '1' => ⟨"i", audience, identity 1, firstKey, 1, .active, 0, 300⟩
  | '2' => ⟨"i", audience, identity 2, nextKey, 2, .revoked, 0, 300⟩
  | '3' => ⟨"i", audience, identity 3, nextKey, 3, .active, 0, 300⟩
  | _ => ⟨"i", audience, identity 3, firstKey, 3, .active, 0, 300⟩

/-- Bytes encode themselves and are their own hash, and every signature is good. -/
@[reducible] def sample : Primitives where
  decode64 v := some (if v = "s" then List.replicate 64 0 else Text.bytes v)
  encode64 bytes := if bytes = List.replicate 64 0 then "s" else String.ofList (bytes.map fun b => Char.ofNat b.toNat)
  sha256 bytes := bytes
  verifySignature _ _ _ := true
  origin v := some ("https", v)
  header _ := some ⟨bindingType, "EdDSA", firstKey⟩
  binding bytes := some (sampleBinding (bytes.map fun b => Char.ofNat b.toNat).head!)

def sampleAuthorities : List Authority := [⟨"i", firstKey⟩]

theorem verify_token {c : Char} (hc : c ∈ ['1', '2', '3', '4']) {s : TrustStore} (hs : s.authorities = sampleAuthorities) :
    let _ := sample
    s.verify (token c) 0 = .ok (sampleBinding c) := by
  intro _
  unfold verify jwt
  rw [parts_token hc, hs]
  simp only [List.mem_cons, List.not_mem_nil, or_false] at hc
  rcases hc with rfl | rfl | rfl | rfl
  all_goals decide +kernel

def sampleFingerprint (c : Char) : String :=
  let _ := sample
  match (sampleBinding c).fingerprint with
  | .ok fingerprint => fingerprint
  | .error _ => ""

theorem fingerprint_sample {c : Char} (hc : c ∈ ['1', '2', '3', '4']) :
    let _ := sample
    (sampleBinding c).fingerprint = .ok (sampleFingerprint c) := by
  intro _
  simp only [List.mem_cons, List.not_mem_nil, or_false] at hc
  rcases hc with rfl | rfl | rfl | rfl
  all_goals decide +kernel

theorem timed_ok {α : Type} {s s' : TrustStore} {now : Nat} {f : TrustStore → Result (α × TrustStore)} {a : α} (g : α → Reply)
    (ht : s.lastTime ≤ now) (hm : now ≤ maxSafe) (hf : f { s with lastTime := now } = .ok (a, s')) :
    replying g (s.timed now f) = (.ok (g a), s') := by
  unfold timed
  rw [if_neg (by omega)]
  simp only [hf, replying]

/-- The first generation is confirmed. -/
def confirmedSample : TrustStore :=
  { start sampleAuthorities with pins := [⟨sampleBinding '1', sampleBinding '1', false⟩] }

/-- The revocation of the second was seen. -/
def revokedSample : TrustStore :=
  { start sampleAuthorities with pins := [⟨sampleBinding '1', sampleBinding '2', true⟩] }

theorem confirm_sample :
    let _ := sample
    step (.confirm (token '1') (sampleFingerprint '1') 0) (start sampleAuthorities) = (.ok .done, confirmedSample) := by
  intro _
  refine timed_ok (a := ()) (fun _ => .done) (Nat.le_refl 0) (by decide) ?_
  simp only [bind_eq_ok, exists_unit, denyIf_eq_ok, pure_eq_ok, Prod.mk.injEq]
  exact ⟨_, verify_token (by decide) rfl, by decide, by decide, _, fingerprint_sample (by decide), fun h => h rfl, by decide,
    by decide, trivial, rfl⟩

theorem observe_sample :
    let _ := sample
    step (.observe (token '2') 0) confirmedSample = (.ok (.observation .revoked), revokedSample) := by
  intro _
  refine timed_ok .observation (Nat.le_refl 0) (by decide) ?_
  rw [bind_eq_ok]
  exact ⟨_, verify_token (by decide) rfl, rfl⟩

theorem acceptChange_sample :
    let _ := sample
    step (.acceptChange (token '3') (sampleFingerprint '1') (sampleFingerprint '3') 0) revokedSample =
      (.ok .done, setPin revokedSample ⟨sampleBinding '3', sampleBinding '3', false⟩) := by
  intro _
  refine timed_ok (a := ()) (fun _ => .done) (Nat.le_refl 0) (by decide) ?_
  rw [bind_eq_ok]
  refine ⟨_, verify_token (by decide) rfl, ?_⟩
  have hp : TrustStore.pin { revokedSample with lastTime := 0 } (sampleBinding '3').device.slot =
      some ⟨sampleBinding '1', sampleBinding '2', true⟩ := by decide
  rw [hp]
  simp only [bind_eq_ok, exists_unit, denyIf_eq_ok, pure_eq_ok, Prod.mk.injEq]
  exact ⟨_, fingerprint_sample (by decide), fun h => h rfl, _, fingerprint_sample (by decide), fun h => h rfl, by decide, trivial,
    rfl⟩

/-- A revocation was observed, and a change brings its key back under the next generation. -/
theorem revoked_keys_returned :
    ¬∀ (_ : Primitives) (authorities : List Authority) (cs ds : List Call) (c d : Call) (b x : Binding),
      Retains (run (start authorities) cs) c b → Accepts (run (step c (run (start authorities) cs)).2 ds) d x →
        x.device.slot = b.device.slot → x.publicKey ≠ b.publicKey := by
  intro h
  let _ := sample
  have hrun : run (start sampleAuthorities) [.confirm (token '1') (sampleFingerprint '1') 0] = confirmedSample :=
    congrArg Prod.snd confirm_sample
  refine h sample sampleAuthorities [.confirm (token '1') (sampleFingerprint '1') 0] [] (.observe (token '2') 0)
    (.acceptChange (token '3') (sampleFingerprint '1') (sampleFingerprint '3') 0) (sampleBinding '2') (sampleBinding '3') ?_ ?_
    rfl rfl
  · rw [hrun]
    exact ⟨token '2', 0, verify_token (by decide) rfl, .inr ⟨rfl, congrArg Prod.fst observe_sample⟩⟩
  · rw [hrun]
    change Accepts (step (.observe (token '2') 0) confirmedSample).2 _ _
    rw [observe_sample]
    exact ⟨.inr ⟨_, _, _, _, rfl, verify_token (by decide) rfl⟩, congrArg Prod.fst acceptChange_sample⟩

/-- The revocation of a device that was not confirmed. -/
def deniedSample : TrustStore :=
  { start sampleAuthorities with unconfirmedRevocations := [sampleBinding '2'] }

theorem reviewUnconfirmed_sample :
    let _ := sample
    step (.reviewUnconfirmed (token '2') 0) (start sampleAuthorities) = (.ok (.review "revoked"), deniedSample) := by
  intro _
  refine timed_ok .review (Nat.le_refl 0) (by decide) ?_
  rw [bind_eq_ok]
  exact ⟨_, verify_token (by decide) rfl, rfl⟩

/-- The next generation is confirmed under a key that was not revoked. -/
theorem confirm_next :
    let _ := sample
    (step (.confirm (token '4') (sampleFingerprint '4') 0) deniedSample).1 = .ok .done := by
  intro _
  have h : replying (fun _ => .done) (deniedSample.confirm (token '4') (sampleFingerprint '4') 0) =
      (.ok .done, { deniedSample with pins := [⟨sampleBinding '4', sampleBinding '4', false⟩] }) := by
    refine timed_ok (a := ()) (fun _ => .done) (Nat.le_refl 0) (by decide) ?_
    simp only [bind_eq_ok, exists_unit, denyIf_eq_ok, pure_eq_ok, Prod.mk.injEq]
    exact ⟨_, verify_token (by decide) rfl, by decide, by decide, _, fingerprint_sample (by decide), fun h => h rfl, by decide,
      by decide, trivial, rfl⟩
  exact congrArg Prod.fst h

theorem revoked_keys_confirmed :
    let _ := sample
    Accepts deniedSample (.confirm (token '4') (sampleFingerprint '4') 0) (sampleBinding '4') ∧
      (sampleBinding '4').publicKey ≠ (sampleBinding '2').publicKey := by
  intro _
  have haccepts : Accepts deniedSample (.confirm (token '4') (sampleFingerprint '4') 0) (sampleBinding '4') :=
    ⟨.inl ⟨_, _, _, rfl, verify_token (by decide) rfl⟩, confirm_next⟩
  have hafter : (step (.reviewUnconfirmed (token '2') 0) (start sampleAuthorities)).2 = deniedSample :=
    congrArg Prod.snd reviewUnconfirmed_sample
  have hgap : ¬Gap (.confirm (token '4') (sampleFingerprint '4') 0) deniedSample := by
    intro ⟨_, _, _, _, _, _, hc⟩
    rcases hc with ⟨⟨_, _, h⟩, _⟩ | ⟨h, _⟩ <;> cases h
  refine ⟨haccepts, revoked_keys sampleAuthorities [] [] (.reviewUnconfirmed (token '2') 0)
    (.confirm (token '4') (sampleFingerprint '4') 0) (sampleBinding '2') (sampleBinding '4') ?_ trivial ?_ ?_ rfl⟩
  · exact ⟨token '2', 0, verify_token (by decide) rfl, .inl ⟨rfl, congrArg Prod.fst reviewUnconfirmed_sample⟩⟩
  · change ¬Gap _ (step (.reviewUnconfirmed (token '2') 0) (start sampleAuthorities)).2
    rw [hafter]
    exact hgap
  · change Accepts (step (.reviewUnconfirmed (token '2') 0) (start sampleAuthorities)).2 _ _
    rw [hafter]
    exact haccepts

end Mikaki.Mls.TrustStore
