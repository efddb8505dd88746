import Mikaki.Identity.Proximity
import Mikaki.Lib.Checks

/-!
# What a proximity session uses its keys for

A cipher advances a counter with every IV that it uses and refuses everything
after a failure. A session is fresh, then live, then closed: it opens one
message on the way in and seals one on the way out.
-/

namespace Mikaki.Identity.Proximity

open Checks
open Calls (run replies count Answered)

theorem iv_inj {direction direction' counter counter' : UInt32} (h : iv direction counter = iv direction' counter') :
    direction = direction' ∧ counter = counter' := by
  simp only [iv, List.append_assoc, List.append_cancel_left_eq] at h
  have hs := List.append_inj h rfl
  exact ⟨Framing.be32_inj hs.1, Framing.be32_inj hs.2⟩

theorem toNat_succ {counter : UInt32} (h : counter ≠ maxCounter) : (counter + 1).toNat = counter.toNat + 1 := by
  have hlt := counter.toNat_lt
  have hne : counter.toNat ≠ 2 ^ 32 - 1 := fun e => h (UInt32.toNat_inj.mp (by rw [e]; rfl))
  rw [UInt32.toNat_add]
  exact Nat.mod_eq_of_lt (by change counter.toNat + 1 < 2 ^ 32; omega)

/-- The keys and IVs behind a run of replies. -/
def used {α : Type} (rs : List (Except String α × List Use)) : List Use := rs.flatMap Prod.snd

theorem used_snoc {α : Type} (rs : List (Except String α × List Use)) (r : Except String α × List Use) :
    used (rs ++ [r]) = used rs ++ r.2 := by
  simp [used]

namespace SessionCipher

/-- What a run has used lies behind the counters, and no IV is there twice. -/
structure Spent (cipher : SessionCipher) (uses : List Use) (reads sends : Nat) (state : SessionCipher) : Prop where
  reader : state.reader = cipher.reader
  device : state.device = cipher.device
  used : ∀ u ∈ uses, (∃ n < state.readCounter, u = ⟨cipher.reader, iv 0 n⟩) ∨
    ∃ n < state.sendCounter, u = ⟨cipher.device, iv 1 n⟩
  nodup : uses.Nodup
  reads : state.readCounter.toNat = 1 + reads
  sends : state.sendCounter.toNat = 1 + sends

theorem lt_succ {n counter : UInt32} (hm : counter ≠ maxCounter) (h : n < counter ∨ n = counter) : n < counter + 1 := by
  rw [UInt32.lt_iff_toNat_lt, toNat_succ hm]
  rcases h with h | rfl
  · exact Nat.lt_succ_of_lt (UInt32.lt_iff_toNat_lt.mp h)
  · exact Nat.lt_succ_self _

theorem Spent.failed {cipher self : SessionCipher} {uses : List Use} {reads sends : Nat}
    (h : Spent cipher uses reads sends self) : Spent cipher uses reads sends { self with failed := true } :=
  ⟨h.reader, h.device, h.used, h.nodup, h.reads, h.sends⟩

theorem Spent.read {cipher self : SessionCipher} {uses : List Use} {reads sends : Nat}
    (h : Spent cipher uses reads sends self) (hm : self.readCounter ≠ maxCounter) :
    Spent cipher (uses ++ [⟨self.reader, iv 0 self.readCounter⟩]) (reads + 1) sends
      { self with readCounter := self.readCounter + 1 } where
  reader := h.reader
  device := h.device
  used u hu := by
    rcases List.mem_append.mp hu with hu | hu
    · rcases h.used u hu with ⟨n, hn, rfl⟩ | hs
      · exact .inl ⟨n, lt_succ hm (.inl hn), rfl⟩
      · exact .inr hs
    · obtain rfl := List.mem_singleton.mp hu
      exact .inl ⟨_, lt_succ hm (.inr rfl), by rw [h.reader]⟩
  nodup := by
    refine h.nodup.append (List.nodup_singleton _) fun u hu hv => ?_
    obtain rfl := List.mem_singleton.mp hv
    rcases h.used _ hu with ⟨n, hn, e⟩ | ⟨n, _, e⟩
    · obtain ⟨-, rfl⟩ := iv_inj (congrArg Use.iv e)
      exact absurd hn (UInt32.lt_irrefl _)
    · exact absurd (iv_inj (congrArg Use.iv e)).1 (by decide)
  reads := by rw [toNat_succ hm, h.reads, Nat.add_assoc]
  sends := h.sends

theorem Spent.send {cipher self : SessionCipher} {uses : List Use} {reads sends : Nat}
    (h : Spent cipher uses reads sends self) (hm : self.sendCounter ≠ maxCounter) (failed : Bool) :
    Spent cipher (uses ++ [⟨self.device, iv 1 self.sendCounter⟩]) reads (sends + 1)
      { self with sendCounter := self.sendCounter + 1, failed } where
  reader := h.reader
  device := h.device
  used u hu := by
    rcases List.mem_append.mp hu with hu | hu
    · rcases h.used u hu with hr | ⟨n, hn, rfl⟩
      · exact .inl hr
      · exact .inr ⟨n, lt_succ hm (.inl hn), rfl⟩
    · obtain rfl := List.mem_singleton.mp hu
      exact .inr ⟨_, lt_succ hm (.inr rfl), by rw [h.device]⟩
  nodup := by
    refine h.nodup.append (List.nodup_singleton _) fun u hu hv => ?_
    obtain rfl := List.mem_singleton.mp hv
    rcases h.used _ hu with ⟨n, _, e⟩ | ⟨n, hn, e⟩
    · exact absurd (iv_inj (congrArg Use.iv e)).1 (by decide)
    · obtain ⟨-, rfl⟩ := iv_inj (congrArg Use.iv e)
      exact absurd hn (UInt32.lt_irrefl _)
  reads := h.reads
  sends := by rw [toNat_succ hm, h.sends, Nat.add_assoc]

end SessionCipher

section
variable [Mdoc]

namespace SessionCipher

theorem derive_ok {shared transcript : Bytes} {cipher : SessionCipher} (h : derive shared transcript = .ok cipher) :
    cipher.readCounter = 1 ∧ cipher.sendCounter = 1 ∧ cipher.failed = false := by
  unfold derive at h
  by_cases hl : shared.length ≠ 32
  · rw [if_pos hl] at h
    cases h
  · rw [if_neg hl] at h
    cases he : Mdoc.expand shared transcript with
    | error error => rw [he] at h; cases h
    | ok keys => rw [he] at h; cases h; exact ⟨rfl, rfl, rfl⟩

/-- A message is accepted under the next IV of the reader, or the cipher has failed. -/
theorem decryptReader_cases (self : SessionCipher) (data : Bytes) :
    (∃ error, self.decryptReader data = ((.error error, []), { self with failed := true })) ∨
      ∃ plain, self.failed = false ∧ self.readCounter ≠ maxCounter ∧
        self.decryptReader data =
          ((.ok plain, [⟨self.reader, iv 0 self.readCounter⟩]), { self with readCounter := self.readCounter + 1 }) := by
  unfold decryptReader
  by_cases hc : self.failed = true ∨ self.readCounter = maxCounter ∨ ¬(16 ≤ data.length ∧ data.length ≤ 32000)
  · rw [if_pos hc]
    exact .inl ⟨_, rfl⟩
  · rw [if_neg hc]
    simp only [not_or] at hc
    cases Mdoc.decrypt self.reader (iv 0 self.readCounter) data with
    | none => exact .inl ⟨_, rfl⟩
    | some plain => exact .inr ⟨plain, Bool.not_eq_true _ ▸ hc.1, hc.2.1, rfl⟩

/-- Encrypting uses the next IV of the device even where it fails; then the cipher has failed. -/
theorem encryptDevice_cases (self : SessionCipher) (plain : Bytes) :
    (∃ error, self.encryptDevice plain = ((.error error, []), { self with failed := true })) ∨
      ∃ result failed, self.sendCounter ≠ maxCounter ∧ (failed = false → result.isOk = true) ∧
        self.encryptDevice plain = ((result, [⟨self.device, iv 1 self.sendCounter⟩]),
          { self with sendCounter := self.sendCounter + 1, failed }) ∧ self.failed = false := by
  unfold encryptDevice
  by_cases hc : self.failed = true ∨ self.sendCounter = maxCounter ∨ plain.length > 31000
  · rw [if_pos hc]
    exact .inl ⟨_, rfl⟩
  · rw [if_neg hc]
    simp only [not_or, Bool.not_eq_true] at hc
    cases Mdoc.encrypt self.device (iv 1 self.sendCounter) plain with
    | none => exact .inr ⟨_, true, hc.2.1, (by intro h; cases h), rfl, hc.1⟩
    | some data => exact .inr ⟨_, self.failed, hc.2.1, fun _ => rfl, rfl, hc.1⟩

/-- A call that accepts a message of the reader, and one that uses an IV of the device. -/
def received (call : Call) (self : SessionCipher) : Bool :=
  match call with
  | .decryptReader data => (self.decryptReader data).1.1.isOk
  | .encryptDevice _ => false

def sent (call : Call) (self : SessionCipher) : Bool :=
  match call with
  | .decryptReader _ => false
  | .encryptDevice plain => !(self.encryptDevice plain).1.2.isEmpty

/-- What one call does: nothing but fail, read under the next IV, or send under the next IV. -/
theorem step_cases (call : Call) (self : SessionCipher) :
    ((∃ error, step call self = ((.error error, []), { self with failed := true })) ∧
        received call self = false ∧ sent call self = false) ∨
      (∃ plain, self.failed = false ∧ self.readCounter ≠ maxCounter ∧ received call self = true ∧ sent call self = false ∧
        step call self =
          ((.ok plain, [⟨self.reader, iv 0 self.readCounter⟩]), { self with readCounter := self.readCounter + 1 })) ∨
      ∃ result failed, self.failed = false ∧ self.sendCounter ≠ maxCounter ∧ received call self = false ∧
        sent call self = true ∧ (failed = false → result.isOk = true) ∧
        step call self = ((result, [⟨self.device, iv 1 self.sendCounter⟩]),
          { self with sendCounter := self.sendCounter + 1, failed }) := by
  cases call with
  | decryptReader data =>
    rcases self.decryptReader_cases data with ⟨error, h⟩ | ⟨plain, hf, hm, h⟩
    · exact .inl ⟨⟨error, h⟩, by simp only [received, h]; rfl, rfl⟩
    · exact .inr (.inl ⟨plain, hf, hm, by simp only [received, h]; rfl, rfl, h⟩)
  | encryptDevice plain =>
    rcases self.encryptDevice_cases plain with ⟨error, h⟩ | ⟨result, failed, hm, hr, h, hf⟩
    · exact .inl ⟨⟨error, h⟩, rfl, by simp only [sent, h]; rfl⟩
    · exact .inr (.inr ⟨result, failed, hf, hm, rfl, by simp only [sent, h]; rfl, hr, h⟩)

/-- A failed cipher refuses every call and stays failed. -/
theorem step_failed {self : SessionCipher} (h : self.failed = true) (call : Call) :
    (∃ error, (step call self).1 = (.error error, [])) ∧ (step call self).2.failed = true := by
  rcases step_cases call self with ⟨⟨error, hs⟩, -⟩ | ⟨_, hf, -⟩ | ⟨_, _, hf, -⟩
  · rw [hs]
    exact ⟨⟨error, rfl⟩, rfl⟩
  · rw [h] at hf; cases hf
  · rw [h] at hf; cases hf

theorem step_error {self : SessionCipher} {call : Call} (h : (step call self).1.1.isOk = false) :
    (step call self).2.failed = true := by
  rcases step_cases call self with ⟨⟨_, hs⟩, -⟩ | ⟨_, -, -, -, -, hs⟩ | ⟨_, failed, -, -, -, -, hr, hs⟩
  · rw [hs]
  · rw [hs] at h; cases h
  · rw [hs] at h ⊢
    by_cases hf : failed = true
    · exact hf
    · rw [hr (Bool.not_eq_true _ ▸ hf)] at h; cases h

theorem run_spent {cipher : SessionCipher} (hr : cipher.readCounter = 1) (hs : cipher.sendCounter = 1) (calls : List Call) :
    Spent cipher (used (replies step cipher calls)) (count step received cipher calls) (count step sent cipher calls)
      (run step cipher calls) := by
  refine Calls.run_history (P := fun cs s =>
    Spent cipher (used (replies step cipher cs)) (count step received cipher cs) (count step sent cipher cs) s) ?_ ?_ calls
  · exact ⟨rfl, rfl, (by intro u hu; cases hu), List.nodup_nil, by rw [hr]; rfl, by rw [hs]; rfl⟩
  · intro cs call h
    rw [Calls.replies_snoc, used_snoc, Calls.count_snoc, Calls.count_snoc]
    rcases step_cases call (run step cipher cs) with
      ⟨⟨_, e⟩, hr, hs⟩ | ⟨_, -, hm, hr, hs, e⟩ | ⟨_, failed, -, hm, hr, hs, -, e⟩
    · rw [e, hr, hs, List.append_nil]
      exact h.failed
    · rw [e, hr, hs]
      exact h.read hm
    · rw [e, hr, hs]
      exact h.send hm failed

/-- After a failed call every later one fails, whatever lies between them. -/
theorem run_failed {self : SessionCipher} (h : self.failed = true) (calls : List Call) (call : Call) :
    ∃ error, (step call (run step self calls)).1 = (.error error, []) :=
  (step_failed (Calls.run_invariant (P := fun s : SessionCipher => s.failed = true) (fun c _ hs => (step_failed hs c).2) h calls) call).1

end SessionCipher

/-! ## The session -/

namespace HolderSession

/-- An NFC session that negotiates has a handover message to answer with. -/
def Hands (session : HolderSession) : Prop := session.negotiated = true → session.handoverSelect.isSome = true

/-- No key has been agreed yet. -/
structure Fresh (session : HolderSession) : Prop where
  unclosed : session.closed = false
  ephemeral : session.ephemeral.isSome = true
  cipher : session.cipher = none
  requested : session.requested = none
  transcript : session.transcript = none
  hands : session.Hands

/-- A request has been opened, and nothing has been sealed with the keys of `cipher`. -/
structure Live (cipher : SessionCipher) (session : HolderSession) : Prop where
  unclosed : session.closed = false
  ephemeral : session.ephemeral = none
  held : session.cipher = some cipher
  sendCounter : cipher.sendCounter = 1
  hands : session.Hands

structure Closed (session : HolderSession) : Prop where
  closed : session.closed = true
  ephemeral : session.ephemeral = none
  cipher : session.cipher = none
  requested : session.requested = none
  transcript : session.transcript = none

omit [Mdoc] in
theorem closed_close (session : HolderSession) : session.close.Closed := ⟨rfl, rfl, rfl, rfl, rfl⟩

theorem new_fresh {ephemeral uuid : Bytes} {session : HolderSession} (h : new ephemeral uuid = .ok session) :
    session.Fresh ∧ session.negotiated = false := by
  unfold new at h
  cases he : Mdoc.engagement ephemeral uuid with
  | error error => rw [he] at h; cases h
  | ok engagement => rw [he] at h; cases h; exact ⟨⟨rfl, rfl, rfl, rfl, rfl, (by intro h; cases h)⟩, rfl⟩

theorem newNfc_fresh {ephemeral uuid : Bytes} {session : HolderSession} (h : newNfc ephemeral uuid = .ok session) :
    session.Fresh ∧ session.handoverSelect.isSome = true := by
  obtain ⟨first, hf, h⟩ := bind_eq_ok.mp h
  obtain ⟨engagement, -, h⟩ := bind_eq_ok.mp h
  obtain ⟨select, -, h⟩ := bind_eq_ok.mp h
  cases h
  obtain ⟨hf, -⟩ := new_fresh hf
  exact ⟨⟨hf.unclosed, hf.ephemeral, hf.cipher, hf.requested, hf.transcript, fun _ => rfl⟩, rfl⟩

theorem newNfcNegotiated_fresh {ephemeral uuid : Bytes} {session : HolderSession}
    (h : newNfcNegotiated ephemeral uuid = .ok session) : session.Fresh := by
  obtain ⟨first, hf, h⟩ := bind_eq_ok.mp h
  cases h
  obtain ⟨hf, hs⟩ := newNfc_fresh hf
  exact ⟨hf.unclosed, hf.ephemeral, hf.cipher, hf.requested, hf.transcript, fun _ => hs⟩

theorem Made.fresh {session : HolderSession} (h : session.Made) : session.Fresh := by
  obtain ⟨ephemeral, uuid, h | h | h | h | h⟩ := h
  · exact (new_fresh h).1
  · exact (newNfc_fresh h).1
  · exact newNfcNegotiated_fresh h
  · obtain ⟨first, hf, h⟩ := bind_eq_ok.mp h
    obtain ⟨select, -, h⟩ := bind_eq_ok.mp h
    cases h
    have hf := newNfcNegotiated_fresh hf
    exact ⟨hf.unclosed, hf.ephemeral, hf.cipher, hf.requested, hf.transcript, fun _ => rfl⟩
  · obtain ⟨first, hf, h⟩ := bind_eq_ok.mp h
    obtain ⟨engagement, -, h⟩ := bind_eq_ok.mp h
    cases h
    obtain ⟨hf, hn⟩ := new_fresh hf
    exact ⟨hf.unclosed, hf.ephemeral, hf.cipher, hf.requested, hf.transcript, fun h => absurd h (by rw [hn]; decide)⟩

/-- A negotiation that fails closes the session; one that succeeds keeps the request of the reader. -/
theorem negotiate_cases {session : HolderSession} (hh : session.Hands) (request : Bytes) :
    (∃ error, session.negotiate request = (.error error, session.close)) ∨
      ∃ select, session.closed = false ∧
        session.negotiate request = (.ok select, { session with handoverRequest := some request }) := by
  unfold negotiate
  by_cases hc : session.closed = true ∨ session.negotiated = false ∨ session.handoverRequest.isSome = true
  · rw [if_pos hc]
    exact .inl ⟨_, rfl⟩
  · rw [if_neg hc]
    simp only [not_or, Bool.not_eq_true, Bool.not_eq_false] at hc
    cases Mdoc.validateRequest request session.nfcDataHandover with
    | error error => exact .inl ⟨error, rfl⟩
    | ok _ =>
      obtain ⟨select, hs⟩ := Option.isSome_iff_exists.mp (hh hc.2.1)
      exact .inr ⟨select, hc.1, by simp only [hs]⟩

theorem deriveKeys_ok {session : HolderSession} {key packet transcript : Bytes} {parts : Establishment}
    {cipher : SessionCipher} (h : session.deriveKeys key packet = .ok (parts, transcript, cipher)) :
    SessionCipher.derive (Mdoc.diffieHellman key parts.publicKey) transcript = .ok cipher := by
  obtain ⟨parts, -, h⟩ := bind_eq_ok.mp h
  obtain ⟨transcript, -, h⟩ := bind_eq_ok.mp h
  obtain ⟨cipher, hd, h⟩ := bind_eq_ok.mp h
  cases h
  exact hd

/-- Agreeing on the keys accepts at most one message, the first of the reader. -/
theorem agree_cases (session : HolderSession) (key packet : Bytes) (readers : List ReaderRegistration) (now : Nat) :
    (∃ error reader uses, session.agree key packet readers now = (.error error, uses) ∧
        uses.Sublist [⟨reader, iv 0 1⟩]) ∨
      ∃ transcript cipher request, cipher.sendCounter = 1 ∧
        session.agree key packet readers now = (.ok (transcript, cipher, request), [⟨cipher.reader, iv 0 1⟩]) := by
  unfold agree
  by_cases hn : session.negotiated = true ∧ session.handoverRequest = none
  · rw [if_pos hn]
    exact .inl ⟨_, [], [], rfl, List.nil_sublist _⟩
  rw [if_neg hn]
  cases hk : session.deriveKeys key packet with
  | error error => exact .inl ⟨error, [], [], rfl, List.nil_sublist _⟩
  | ok keys =>
    obtain ⟨parts, transcript, cipher⟩ := keys
    obtain ⟨hr, hs, -⟩ := SessionCipher.derive_ok (deriveKeys_ok hk)
    dsimp only
    cases parts.data with
    | error error => exact .inl ⟨error, [], [], rfl, List.nil_sublist _⟩
    | ok data =>
      dsimp only
      rcases cipher.decryptReader_cases data with ⟨error, h⟩ | ⟨plain, -, -, h⟩
      · simp only [h]
        exact .inl ⟨error, [], [], rfl, List.nil_sublist _⟩
      · simp only [h, hr]
        cases Mdoc.parseDeviceRequest plain transcript readers now with
        | error error => exact .inl ⟨error, cipher.reader, _, rfl, List.Sublist.refl _⟩
        | ok request => exact .inr ⟨transcript, { cipher with readCounter := 1 + 1 }, request, hs, rfl⟩

theorem establish_fresh {session : HolderSession} (hf : session.Fresh) (packet : Bytes) (readers : List ReaderRegistration)
    (now : Nat) :
    (∃ error reader uses, session.establish packet readers now = ((.error error, uses), session.close) ∧
        uses.Sublist [⟨reader, iv 0 1⟩]) ∨
      ∃ cipher request next, session.establish packet readers now = ((.ok request, [⟨cipher.reader, iv 0 1⟩]), next) ∧
        Live cipher next := by
  obtain ⟨key, hk⟩ := Option.isSome_iff_exists.mp hf.ephemeral
  unfold establish
  rw [if_neg (by rw [hf.unclosed]; decide), hk]
  rcases agree_cases { session with ephemeral := none } key packet readers now with
    ⟨error, reader, uses, h, hu⟩ | ⟨transcript, cipher, request, hs, h⟩
  · simp only [h]
    exact .inl ⟨error, reader, uses, rfl, hu⟩
  · simp only [h]
    exact .inr ⟨cipher, request, _, rfl, hf.unclosed, rfl, rfl, hs, hf.hands⟩

/-- Without the ephemeral key nothing is agreed, and nothing changes. -/
theorem establish_consumed {session : HolderSession} (h : session.ephemeral = none) (packet : Bytes)
    (readers : List ReaderRegistration) (now : Nat) :
    session.establish packet readers now = ((.error "session_consumed", []), session) := by
  unfold establish
  by_cases hc : session.closed = true
  · rw [if_pos hc]
  · rw [if_neg hc, h]

theorem sealResponse_unrequested {session : HolderSession} (h : session.requested = none) (response : Bytes) :
    session.sealResponse response = ((.error "review_required", []), session) := by
  unfold sealResponse
  rw [if_pos (.inr h)]

/-- Sealing uses at most the first IV of the device, and leaves the session as it is only where no request is reviewed. -/
theorem sealResponse_live {cipher : SessionCipher} {session : HolderSession} (h : Live cipher session) (response : Bytes) :
    (∃ error, session.sealResponse response = ((.error error, []), session)) ∨
      ∃ result uses, session.sealResponse response = ((result, uses), session.close) ∧
        uses.Sublist [⟨cipher.device, iv 1 1⟩] := by
  by_cases hr : session.requested = none
  · exact .inl ⟨_, sealResponse_unrequested hr response⟩
  · unfold sealResponse
    rw [if_neg (by rw [h.unclosed]; simp [hr]), h.held]
    rcases cipher.encryptDevice_cases response with ⟨error, he⟩ | ⟨result, failed, -, -, he, -⟩
    · simp only [he]
      exact .inr ⟨_, _, rfl, List.nil_sublist _⟩
    · simp only [he]
      exact .inr ⟨_, _, rfl, by rw [h.sendCounter]⟩

/-! ### The three phases -/

/-- A call that releases a sealed response. -/
def sealed (call : Call) (session : HolderSession) : Bool :=
  match call with
  | .sealResponse response => (session.sealResponse response).1.1.isOk
  | .sealResponseAt response now => (session.sealResponseAt response now).1.1.isOk
  | _ => false

/-- Some call of the run has opened a request. -/
def Established (session : HolderSession) (calls : List Call) : Prop :=
  ∃ packet readers now request uses, Answered step session calls (.establish packet readers now) (.ok (.request request), uses)

/-- Where a run stands that has used `uses` and released `seals` responses. -/
inductive Phase (established : Prop) (uses : List Use) (seals : Nat) (session : HolderSession) : Prop where
  | fresh (unused : uses = []) (unsealed : seals = 0) (fresh : session.Fresh)
  | live (cipher : SessionCipher) (established : established) (used : uses = [⟨cipher.reader, iv 0 1⟩]) (unsealed : seals = 0)
    (live : Live cipher session)
  | closed (reader device : Bytes) (used : uses.Sublist [⟨reader, iv 0 1⟩, ⟨device, iv 1 1⟩]) (sealed : seals ≤ 1)
    (closed : session.Closed)

/-- A call on a closed session fails, uses nothing and leaves it closed. -/
theorem step_closed {session : HolderSession} (h : session.Closed) (call : Call) :
    (step call session).2.Closed ∧ (step call session).1.2 = [] ∧ sealed call session = false ∧
      (call ≠ .close → ∃ error, (step call session).1 = (.error error, [])) := by
  cases call with
  | negotiate request =>
    have hn : session.negotiate request = (.error "invalid_handover_state", session.close) := if_pos (.inl h.closed)
    simp only [step, hn]
    exact ⟨closed_close session, trivial, rfl, fun _ => ⟨_, rfl⟩⟩
  | establish packet readers now =>
    simp only [step, establish_consumed h.ephemeral]
    exact ⟨h, trivial, rfl, fun _ => ⟨_, rfl⟩⟩
  | sealResponse response =>
    simp only [step, sealed, sealResponse_unrequested h.requested]
    exact ⟨h, trivial, rfl, fun _ => ⟨_, rfl⟩⟩
  | sealResponseAt response now =>
    simp only [step, sealed, sealResponseAt, request, h.requested]
    exact ⟨h, trivial, rfl, fun _ => ⟨_, rfl⟩⟩
  | request =>
    simp only [step, request, h.requested]
    exact ⟨h, trivial, rfl, fun _ => ⟨_, rfl⟩⟩
  | readTranscript =>
    simp only [step, readTranscript, h.transcript]
    exact ⟨h, trivial, rfl, fun _ => ⟨_, rfl⟩⟩
  | close => exact ⟨closed_close session, rfl, rfl, fun h => absurd rfl h⟩

/-- A call on a fresh session leaves it fresh, opens a request, or closes it. -/
theorem step_fresh {session : HolderSession} (h : session.Fresh) (call : Call) :
    sealed call session = false ∧
      (((step call session).2.Fresh ∧ (step call session).1.2 = []) ∨
        (∃ cipher packet readers now request, call = .establish packet readers now ∧
          (step call session).1 = (.ok (.request request), [⟨cipher.reader, iv 0 1⟩]) ∧ Live cipher (step call session).2) ∨
        ((step call session).2.Closed ∧ ∃ reader, (step call session).1.2.Sublist [⟨reader, iv 0 1⟩])) := by
  cases call with
  | negotiate request =>
    refine ⟨rfl, ?_⟩
    rcases negotiate_cases h.hands request with ⟨error, hn⟩ | ⟨select, -, hn⟩
    · simp only [step, hn]
      exact .inr (.inr ⟨closed_close session, [], List.nil_sublist _⟩)
    · simp only [step, hn]
      exact .inl ⟨⟨h.unclosed, h.ephemeral, h.cipher, h.requested, h.transcript, h.hands⟩, trivial⟩
  | establish packet readers now =>
    refine ⟨rfl, ?_⟩
    rcases establish_fresh h packet readers now with ⟨error, reader, uses, he, hu⟩ | ⟨cipher, request, next, he, hl⟩
    · simp only [step, he]
      exact .inr (.inr ⟨closed_close session, reader, hu⟩)
    · simp only [step, he]
      exact .inr (.inl ⟨cipher, packet, readers, now, request, rfl, rfl, hl⟩)
  | sealResponse response =>
    simp only [step, sealed, sealResponse_unrequested h.requested]
    exact ⟨rfl, .inl ⟨h, trivial⟩⟩
  | sealResponseAt response now =>
    simp only [step, sealed, sealResponseAt, request, h.requested]
    exact ⟨rfl, .inl ⟨h, trivial⟩⟩
  | request => exact ⟨rfl, .inl ⟨h, rfl⟩⟩
  | readTranscript => exact ⟨rfl, .inl ⟨h, rfl⟩⟩
  | close => exact ⟨rfl, .inr (.inr ⟨closed_close session, [], List.nil_sublist _⟩)⟩

/-- A call on a live session leaves it live without using its keys, or closes it. -/
theorem step_live {cipher : SessionCipher} {session : HolderSession} (h : Live cipher session) (call : Call) :
    (Live cipher (step call session).2 ∧ (step call session).1.2 = [] ∧ sealed call session = false) ∨
      ((step call session).2.Closed ∧ (step call session).1.2.Sublist [⟨cipher.device, iv 1 1⟩]) := by
  cases call with
  | negotiate request =>
    rcases negotiate_cases h.hands request with ⟨error, hn⟩ | ⟨select, -, hn⟩
    · simp only [step, hn]
      exact .inr ⟨closed_close session, List.nil_sublist _⟩
    · simp only [step, hn]
      exact .inl ⟨⟨h.unclosed, h.ephemeral, h.held, h.sendCounter, h.hands⟩, trivial, rfl⟩
  | establish packet readers now =>
    simp only [step, establish_consumed h.ephemeral]
    exact .inl ⟨h, trivial, rfl⟩
  | sealResponse response =>
    rcases sealResponse_live h response with ⟨error, hs⟩ | ⟨result, uses, hs, hu⟩
    · simp only [step, sealed, hs]
      exact .inl ⟨h, trivial, rfl⟩
    · simp only [step, hs]
      exact .inr ⟨closed_close session, hu⟩
  | sealResponseAt response now =>
    cases hr : session.requested with
    | none =>
      simp only [step, sealed, sealResponseAt, request, hr]
      exact .inl ⟨h, trivial, rfl⟩
    | some reviewed =>
      by_cases he : reviewed.expiresAt ≤ now
      · simp only [step, sealResponseAt, request, hr, if_pos he]
        exact .inr ⟨closed_close session, List.nil_sublist _⟩
      · rcases sealResponse_live h response with ⟨error, hs⟩ | ⟨result, uses, hs, hu⟩
        · simp only [step, sealed, sealResponseAt, request, hr, if_neg he, hs]
          exact .inl ⟨h, trivial, rfl⟩
        · simp only [step, sealResponseAt, request, hr, if_neg he, hs]
          exact .inr ⟨closed_close session, hu⟩
  | request => exact .inl ⟨h, rfl, rfl⟩
  | readTranscript => exact .inl ⟨h, rfl, rfl⟩
  | close => exact .inr ⟨closed_close session, List.nil_sublist _⟩

theorem Established.snoc {session : HolderSession} {calls : List Call} (h : Established session calls) (call : Call) :
    Established session (calls ++ [call]) := by
  obtain ⟨packet, readers, now, request, uses, h⟩ := h
  exact ⟨packet, readers, now, request, uses, Calls.answered_snoc.mpr (.inl h)⟩

/-- Every run from a constructor stands in one of the phases. -/
theorem run_phase {session : HolderSession} (h : session.Made) (calls : List Call) :
    Phase (Established session calls) (used (replies step session calls)) (count step sealed session calls)
      (run step session calls) := by
  refine Calls.run_history (P := fun cs s =>
    Phase (Established session cs) (used (replies step session cs)) (count step sealed session cs) s)
    (.fresh rfl rfl h.fresh) ?_ calls
  intro cs call h
  rw [Calls.replies_snoc, used_snoc, Calls.count_snoc]
  cases h with
  | fresh hu hn hf =>
    obtain ⟨hs, hc⟩ := step_fresh hf call
    rw [hu, hn, hs]
    rcases hc with ⟨hf, hu⟩ | ⟨cipher, packet, readers, now, request, rfl, hr, hl⟩ | ⟨hc, reader, hu⟩
    · exact .fresh hu rfl hf
    · refine .live cipher ?_ (by rw [hr]; rfl) rfl hl
      exact ⟨packet, readers, now, request, _, Calls.answered_snoc.mpr (.inr ⟨rfl, hr⟩)⟩
    · exact .closed reader [] (hu.trans ((List.Sublist.refl _).cons_cons _ |>.trans (by simp))) (Nat.zero_le 1) hc
  | live cipher he hu hn hl =>
    rw [hu, hn]
    rcases step_live hl call with ⟨hl, hu, hs⟩ | ⟨hc, hu⟩
    · rw [hu, hs]
      exact .live cipher (he.snoc call) rfl rfl hl
    · refine .closed cipher.reader cipher.device (hu.cons_cons _) ?_ hc
      split <;> omega
  | closed reader device hu hn hc =>
    obtain ⟨hc, he, hs, -⟩ := step_closed hc call
    rw [he, hs, List.append_nil]
    exact .closed reader device hu hn hc

/-- The keys of a session are gone, and every later call that can fail does. -/
def Destroyed (session : HolderSession) : Prop :=
  session.ephemeral = none ∧ session.cipher = none ∧ ∀ calls call, call ≠ .close →
    ∃ error, (step call (run step session calls)).1 = (.error error, [])

theorem Closed.destroyed {session : HolderSession} (h : session.Closed) : session.Destroyed := by
  refine ⟨h.ephemeral, h.cipher, fun calls call hc => ?_⟩
  have hr := Calls.run_invariant (fun c s (hs : Closed s) => (step_closed hs c).1) h calls
  exact (step_closed hr call).2.2.2 hc

omit [Mdoc] in
theorem Phase.count_le {established : Prop} {uses : List Use} {seals : Nat} {session : HolderSession}
    (h : Phase established uses seals session) : seals ≤ 1 := by
  cases h with
  | fresh _ hn _ => omega
  | live _ _ _ hn _ => omega
  | closed _ _ _ hn _ => exact hn

omit [Mdoc] in
theorem Phase.nodup {established : Prop} {uses : List Use} {seals : Nat} {session : HolderSession}
    (h : Phase established uses seals session) : uses.Nodup := by
  cases h with
  | fresh hu _ _ => rw [hu]; exact List.nodup_nil
  | live _ _ hu _ _ => rw [hu]; exact List.nodup_singleton _
  | closed reader device hu _ _ =>
    refine hu.nodup (List.nodup_cons.mpr ⟨fun hm => ?_, List.nodup_singleton _⟩)
    exact absurd (iv_inj (congrArg Use.iv (List.mem_singleton.mp hm))).1 (by decide)

/-- A response is released only by a session that has opened a request. -/
theorem Phase.established {established : Prop} {uses : List Use} {seals : Nat} {session : HolderSession}
    (h : Phase established uses seals session) {call : Call} (hs : sealed call session = true) : established := by
  cases h with
  | fresh _ _ hf => rw [(step_fresh hf call).1] at hs; cases hs
  | live _ he _ _ _ => exact he
  | closed _ _ _ _ hc => rw [(step_closed hc call).2.2.1] at hs; cases hs

theorem Phase.negotiate {established : Prop} {uses : List Use} {seals : Nat} {session : HolderSession}
    (h : Phase established uses seals session) {request : Bytes} (he : (session.negotiate request).1.isOk = false) :
    (session.negotiate request).2.Destroyed := by
  have of_hands : session.Hands → (session.negotiate request).2.Destroyed := fun hh => by
    rcases negotiate_cases hh request with ⟨error, hn⟩ | ⟨select, -, hn⟩
    · rw [hn]; exact (closed_close session).destroyed
    · rw [hn] at he; cases he
  cases h with
  | fresh _ _ hf => exact of_hands hf.hands
  | live _ _ _ _ hl => exact of_hands hl.hands
  | closed _ _ _ _ hc => exact (step_closed hc (.negotiate request)).1.destroyed

theorem Phase.establish {established : Prop} {uses : List Use} {seals : Nat} {session : HolderSession}
    (h : Phase established uses seals session) {packet : Bytes} {readers : List ReaderRegistration} {now : Nat}
    (hn : ¬established) (he : (session.establish packet readers now).1.1.isOk = false) :
    (session.establish packet readers now).2.Destroyed := by
  cases h with
  | fresh _ _ hf =>
    rcases establish_fresh hf packet readers now with ⟨error, reader, used, hs, -⟩ | ⟨cipher, request, next, hs, -⟩
    · rw [hs]; exact (closed_close session).destroyed
    · rw [hs] at he; cases he
  | live _ hl _ _ _ => exact absurd hl hn
  | closed _ _ _ _ hc => rw [establish_consumed hc.ephemeral]; exact hc.destroyed

/-- A session that has opened a request has no ephemeral key any more. -/
theorem run_established {session : HolderSession} (h : session.Made) {calls : List Call} (he : Established session calls) :
    (run step session calls).ephemeral = none := by
  refine Calls.run_history (P := fun cs (s : HolderSession) => Established session cs → s.ephemeral = none) ?_ ?_ calls he
  · intro ⟨_, _, _, _, _, hn⟩
    exact absurd hn Calls.not_answered_nil
  · intro cs call ih hc
    have hp := run_phase h cs
    cases hp with
    | fresh _ _ hf =>
      obtain ⟨packet, readers, now, request, uses, ha⟩ := hc
      rcases Calls.answered_snoc.mp ha with ha | ⟨rfl, hr⟩
      · have hk := hf.ephemeral
        rw [ih ⟨packet, readers, now, request, uses, ha⟩] at hk
        cases hk
      · rcases establish_fresh hf packet readers now with ⟨error, reader, used, hs, -⟩ | ⟨cipher, request, next, hs, hl⟩
        · simp only [step, hs] at hr; cases hr
        · simp only [step, hs]; exact hl.ephemeral
    | live cipher _ _ _ hl =>
      rcases step_live hl call with ⟨hl, -⟩ | ⟨hc, -⟩
      · exact hl.ephemeral
      · exact hc.ephemeral
    | closed _ _ _ _ hc => exact (step_closed hc call).1.ephemeral

end HolderSession

/-! ## One response, and no IV twice -/

/-- In every run of a derived cipher no key and IV come together twice, the counters count without wrapping and a failure is
final; in every run of a session one response is released at most, after a request was opened, no key and IV come together
twice, and a failed negotiation or a failed first agreement is final. Agreeing again is refused and changes nothing. -/
theorem proximity_session :
    (∀ shared transcript cipher, SessionCipher.derive shared transcript = .ok cipher → ∀ calls,
      (used (replies SessionCipher.step cipher calls)).Nodup ∧
      (run SessionCipher.step cipher calls).readCounter.toNat = 1 + count SessionCipher.step SessionCipher.received cipher calls ∧
      (run SessionCipher.step cipher calls).sendCounter.toNat = 1 + count SessionCipher.step SessionCipher.sent cipher calls ∧
      ∀ call, (SessionCipher.step call (run SessionCipher.step cipher calls)).1.1.isOk = false → ∀ later next, ∃ error,
        (SessionCipher.step next (run SessionCipher.step
          (SessionCipher.step call (run SessionCipher.step cipher calls)).2 later)).1 = (.error error, [])) ∧
    ∀ session : HolderSession, session.Made → ∀ calls,
      count HolderSession.step HolderSession.sealed session calls ≤ 1 ∧
      (∀ call, HolderSession.sealed call (run HolderSession.step session calls) = true → session.Established calls) ∧
      (used (replies HolderSession.step session calls)).Nodup ∧
      (∀ request, ((run HolderSession.step session calls).negotiate request).1.isOk = false →
        ((run HolderSession.step session calls).negotiate request).2.Destroyed) ∧
      (∀ packet readers now, ((run HolderSession.step session calls).establish packet readers now).1.1.isOk = false →
        ¬session.Established calls → ((run HolderSession.step session calls).establish packet readers now).2.Destroyed) ∧
      ∀ packet readers now, session.Established calls →
        (run HolderSession.step session calls).establish packet readers now =
          ((.error "session_consumed", []), run HolderSession.step session calls) := by
  constructor
  · intro shared transcript cipher hd calls
    obtain ⟨hr, hs, -⟩ := SessionCipher.derive_ok hd
    have h := SessionCipher.run_spent hr hs calls
    exact ⟨h.nodup, h.reads, h.sends, fun call he later next => SessionCipher.run_failed (SessionCipher.step_error he) later next⟩
  · intro session hm calls
    have h := HolderSession.run_phase hm calls
    refine ⟨h.count_le, fun _ hs => h.established hs, h.nodup, fun _ he => h.negotiate he, fun _ _ _ he hn => h.establish hn he, ?_⟩
    intro packet readers now he
    exact HolderSession.establish_consumed (HolderSession.run_established hm he) packet readers now

end

/-- A reader whose messages open when they start with a zero, and a device that sends in the clear. -/
@[reducible] def plainMdoc : Mdoc where
  engagement _ _ := .ok [1]
  withoutMethods engagement := .ok engagement
  withDataMethod engagement := .ok engagement
  staticHandoverSelect _ _ := .ok [2]
  nfcDataHandoverSelect _ := .ok [3]
  validateRequest request _ := if request = [] then .error "invalid_handover" else .ok ()
  establishment packet := if packet = [] then .error "invalid_device_request" else .ok ⟨[4], [5], .ok packet⟩
  nfcTranscript engagement readerKey select request := .ok (engagement ++ readerKey ++ select ++ request.getD [])
  qrTranscript engagement readerKey := .ok (engagement ++ readerKey)
  diffieHellman _ _ := List.replicate 32 6
  expand _ _ := .ok ([7], [8])
  decrypt _ _ data := if data.head? = some 0 then some data else none
  encrypt _ _ plain := some plain
  parseDeviceRequest _ _ _ now := .ok ⟨now + 60, "reader"⟩
  encodeData data := .ok data

/-- A session that opens a request and releases its response. -/
theorem proximity_session_released :
    ∃ session : HolderSession, @HolderSession.Made plainMdoc session ∧
      @count _ _ _ (@HolderSession.step plainMdoc) (@HolderSession.sealed plainMdoc) session
        [.establish (List.replicate 16 0) [] 100, .sealResponse [9], .sealResponse [9]] = 1 ∧
      (used (@replies _ _ _ (@HolderSession.step plainMdoc) session
        [.establish (List.replicate 16 0) [] 100, .sealResponse [9], .sealResponse [9]])).Nodup := by
  let _ := plainMdoc
  obtain ⟨session, hs⟩ := ok_of_isOk (x := HolderSession.new [1] [2]) (by decide)
  have hm : session.Made := ⟨[1], [2], .inl hs⟩
  refine ⟨session, hm, ?_, (proximity_session.2 session hm _).2.2.1⟩
  cases hs
  decide +kernel

/-- An agreement that fails does not always end the session: a second one is refused, and the response is released. -/
theorem proximity_session_repeated :
    ¬∀ [Mdoc] (session : HolderSession), session.Made → ∀ calls packet readers now,
      ((run HolderSession.step session calls).establish packet readers now).1.1.isOk = false →
        ((run HolderSession.step session calls).establish packet readers now).2.Destroyed := by
  intro h
  let _ := plainMdoc
  obtain ⟨session, hs⟩ := ok_of_isOk (x := HolderSession.new [1] [2]) (by decide)
  have hd := h session ⟨[1], [2], .inl hs⟩ [.establish (List.replicate 16 0) [] 100] (List.replicate 16 0) [] 100
  cases hs
  obtain ⟨-, -, hd⟩ := hd (by decide +kernel)
  obtain ⟨error, he⟩ := hd [] (.sealResponse [9]) (by decide)
  have hr : Except.isOk (Except.error error : Except String HolderSession.Answer) = true :=
    (congrArg (fun r => r.1.isOk) he).symm.trans (by decide +kernel)
  cases hr

end Mikaki.Identity.Proximity
