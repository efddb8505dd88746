import Mikaki.Lib.Calls
import Mikaki.Oidc.Dpop

/-!
# Device grants

The transitions of a device grant: a decision of its owner, and polls of its
client, each of which slows down when it comes too early.
-/

namespace Mikaki.Oidc

open Words

structure GrantEndpoints where
  initiation : String
  token : String
  distinct : initiation ≠ token

def GrantEndpoints.new [Formats] (initiation token : String) : Option GrantEndpoints :=
  match endpoint initiation, endpoint token with
  | .ok initiation, .ok token => if h : initiation = token then none else some ⟨initiation, token, h⟩
  | _, _ => none

namespace DeviceGrant

inductive State where
  | pending
  | approved (owner : String)
  | denied
  | redeemed
  deriving DecidableEq

structure Grant where
  client : String
  keyThumbprint : String
  tokenEndpoint : String
  expiresAt : UInt64
  interval : UInt64
  nextPollAt : UInt64
  state : State
  deriving DecidableEq

inductive PollResult where
  | authorizationPending
  | slowDown
  | accessDenied
  | expiredToken
  | invalidGrant
  | authorized (owner : String)
  deriving DecidableEq

/-- A proof's times are in their window. -/
def inTime (proof : VerifiedDpopProof) (now : UInt64) : Prop := proof.issuedAt ≤ saturatingAdd now 10 ∧ now ≤ proof.retainUntil

instance (proof : VerifiedDpopProof) (now : UInt64) : Decidable (inTime proof now) := inferInstanceAs (Decidable (_ ∧ _))

def Grant.new (client : String) (proof : VerifiedDpopProof) (endpoints : GrantEndpoints) (now expiresAt interval : UInt64) :
    Option Grant :=
  if client = "" ∨ expiresAt ≤ now ∨ interval = 0 ∨ proof.isTokenPostTo endpoints.initiation = false ∨ ¬inTime proof now then none
  else some
    { client, keyThumbprint := proof.thumbprint, tokenEndpoint := endpoints.token, expiresAt, interval
      nextPollAt := saturatingAdd now interval, state := .pending }

namespace Grant

def approve (self : Grant) (owner : String) (now : UInt64) : Bool × Grant :=
  if owner = "" ∨ self.expiresAt ≤ now ∨ self.state ≠ .pending then (false, self)
  else (true, { self with state := .approved owner })

def deny (self : Grant) (now : UInt64) : Bool × Grant :=
  if self.expiresAt ≤ now ∨ self.state ≠ .pending then (false, self) else (true, { self with state := .denied })

def poll (self : Grant) (client : String) (proof : VerifiedDpopProof) (now : UInt64) : PollResult × Grant :=
  if client ≠ self.client ∨ proof.thumbprint ≠ self.keyThumbprint ∨ proof.isTokenPostTo self.tokenEndpoint = false ∨
      ¬inTime proof now then (.invalidGrant, self)
  else if self.expiresAt ≤ now then (.expiredToken, self)
  else if self.state = .redeemed then (.invalidGrant, self)
  else if self.state = .denied then (.accessDenied, self)
  else if now < self.nextPollAt then
    let interval := saturatingAdd self.interval 5
    (.slowDown, { self with interval, nextPollAt := saturatingAdd now interval })
  else
    let self := { self with nextPollAt := saturatingAdd now self.interval }
    match self.state with
    | .pending => (.authorizationPending, self)
    | .approved owner => (.authorized owner, { self with state := .redeemed })
    -- Unreachable: both were answered above.
    | .denied | .redeemed => (.invalidGrant, self)

end Grant

/-! ## Calls -/

inductive Call where
  | approve (owner : String) (now : UInt64)
  | deny (now : UInt64)
  | poll (client : String) (proof : VerifiedDpopProof) (now : UInt64)
  deriving DecidableEq

inductive Reply where
  | decided (b : Bool)
  | polled (r : PollResult)
  deriving DecidableEq

/-- The reply refuses, and says nothing of the timing. -/
def Reply.refuses : Reply → Bool
  | decided b => !b
  | polled r => r == .invalidGrant || r == .expiredToken || r == .accessDenied

def step : Call → Grant → Reply × Grant
  | .approve owner now, g => (.decided (g.approve owner now).1, (g.approve owner now).2)
  | .deny now, g => (.decided (g.deny now).1, (g.deny now).2)
  | .poll client proof now, g => (.polled (g.poll client proof now).1, (g.poll client proof now).2)

/-- What a call can do. -/
inductive Moves (g : Grant) : Call → Reply → Grant → Prop
  | refused (c : Call) (r : Reply) (hr : r.refuses = true) : Moves g c r g
  | approved (owner : String) (now : UInt64) (hs : g.state = .pending) (ht : now < g.expiresAt) :
      Moves g (.approve owner now) (.decided true) { g with state := .approved owner }
  | denied (now : UInt64) (hs : g.state = .pending) (ht : now < g.expiresAt) :
      Moves g (.deny now) (.decided true) { g with state := .denied }
  | slowed (client : String) (proof : VerifiedDpopProof) (now : UInt64) (next : UInt64) :
      Moves g (.poll client proof now) (.polled .slowDown) { g with interval := saturatingAdd g.interval 5, nextPollAt := next }
  | pending (client : String) (proof : VerifiedDpopProof) (now : UInt64) (next : UInt64) :
      Moves g (.poll client proof now) (.polled .authorizationPending) { g with nextPollAt := next }
  | authorized (client : String) (proof : VerifiedDpopProof) (now : UInt64) (next : UInt64) (owner : String)
      (hs : g.state = .approved owner) (ht : now < g.expiresAt) :
      Moves g (.poll client proof now) (.polled (.authorized owner)) { g with nextPollAt := next, state := .redeemed }

theorem step_moves (c : Call) (g : Grant) : Moves g c (step c g).1 (step c g).2 := by
  cases c with
  | approve owner now =>
    change Moves g _ (.decided (g.approve owner now).1) (g.approve owner now).2
    unfold Grant.approve
    by_cases h : owner = "" ∨ g.expiresAt ≤ now ∨ g.state ≠ .pending
    · rw [if_pos h]
      exact .refused _ _ rfl
    · rw [if_neg h]
      simp only [not_or, not_not] at h
      exact .approved owner now h.2.2 (UInt64.not_le.mp h.2.1)
  | deny now =>
    change Moves g _ (.decided (g.deny now).1) (g.deny now).2
    unfold Grant.deny
    by_cases h : g.expiresAt ≤ now ∨ g.state ≠ .pending
    · rw [if_pos h]
      exact .refused _ _ rfl
    · rw [if_neg h]
      simp only [not_or, not_not] at h
      exact .denied now h.2 (UInt64.not_le.mp h.1)
  | poll client proof now =>
    change Moves g _ (.polled (g.poll client proof now).1) (g.poll client proof now).2
    unfold Grant.poll
    by_cases h : client ≠ g.client ∨ proof.thumbprint ≠ g.keyThumbprint ∨ proof.isTokenPostTo g.tokenEndpoint = false ∨
        ¬inTime proof now
    · rw [if_pos h]
      exact .refused _ _ rfl
    rw [if_neg h]
    by_cases hexp : g.expiresAt ≤ now
    · rw [if_pos hexp]
      exact .refused _ _ rfl
    rw [if_neg hexp]
    by_cases hred : g.state = .redeemed
    · rw [if_pos hred]
      exact .refused _ _ rfl
    rw [if_neg hred]
    by_cases hden : g.state = .denied
    · rw [if_pos hden]
      exact .refused _ _ rfl
    rw [if_neg hden]
    by_cases hearly : now < g.nextPollAt
    · rw [if_pos hearly]
      exact .slowed client proof now _
    · rw [if_neg hearly]
      dsimp only
      split
      · exact .pending client proof now _
      · rename_i owner hs
        exact .authorized client proof now _ owner hs (UInt64.not_le.mp hexp)
      · rename_i hs
        exact absurd hs hden
      · rename_i hs
        exact absurd hs hred

/-! ## Every sequence of calls -/

def Reply.authorizes : Reply → Bool
  | polled (.authorized _) => true
  | _ => false

/-- The call is a poll that is authorized. -/
def authorizes (c : Call) (g : Grant) : Bool := (step c g).1.authorizes

/-- The call is a decision that is taken. -/
def decides (c : Call) (g : Grant) : Bool := (step c g).1 == .decided true

variable {g : Grant}

/-- What a run has told the grant. -/
def Told (g : Grant) (cs : List Call) : State → Prop
  | .pending => (∀ c, ¬Calls.Answered step g cs c (.decided true)) ∧
      Calls.count step decides g cs = 0 ∧ Calls.count step authorizes g cs = 0
  | .approved owner => (∃ now, Calls.Answered step g cs (.approve owner now) (.decided true)) ∧
      (∀ c, Calls.Answered step g cs c (.decided true) → ∃ now, c = .approve owner now) ∧
      Calls.count step decides g cs = 1 ∧ Calls.count step authorizes g cs = 0
  | .denied => Calls.count step decides g cs = 1 ∧ Calls.count step authorizes g cs = 0
  | .redeemed => Calls.count step decides g cs = 1 ∧ Calls.count step authorizes g cs = 1

/-- The grant is what the decisions of its run made of it. -/
structure History (g : Grant) (cs : List Call) (s : Grant) : Prop where
  expires : s.expiresAt = g.expiresAt
  told : Told g cs s.state

theorem quiet_of_refuses {c : Call} {s : Grant} (h : (step c s).1.refuses = true) :
    decides c s = false ∧ authorizes c s = false := by
  unfold decides authorizes
  cases hr : (step c s).1 with
  | decided b =>
    rw [hr] at h
    cases b with
    | true => cases h
    | false => exact ⟨rfl, rfl⟩
  | polled r =>
    rw [hr] at h
    cases r with
    | slowDown | authorizationPending | authorized => cases h
    | _ => exact ⟨rfl, rfl⟩

/-- A call that takes no decision and authorizes nothing tells nothing. -/
theorem Told.quiet {cs : List Call} {c : Call} {state : State} (hd : decides c (Calls.run step g cs) = false)
    (ha : authorizes c (Calls.run step g cs) = false) (h : Told g cs state) : Told g (cs ++ [c]) state := by
  have hcd : Calls.count step decides g (cs ++ [c]) = Calls.count step decides g cs := by
    rw [Calls.count_snoc, hd]
    rfl
  have hca : Calls.count step authorizes g (cs ++ [c]) = Calls.count step authorizes g cs := by
    rw [Calls.count_snoc, ha]
    rfl
  have hback : ∀ c', Calls.Answered step g (cs ++ [c]) c' (.decided true) → Calls.Answered step g cs c' (.decided true) := by
    intro c' hc'
    rcases Calls.answered_snoc.mp hc' with hold | ⟨rfl, hr⟩
    · exact hold
    · simp [decides, hr] at hd
  cases state with
  | pending => exact ⟨fun c' hc' => h.1 c' (hback c' hc'), hcd.trans h.2.1, hca.trans h.2.2⟩
  | approved owner =>
    obtain ⟨⟨now, hn⟩, honly, h1, h2⟩ := h
    exact ⟨⟨now, Calls.answered_snoc.mpr (.inl hn)⟩, fun c' hc' => honly c' (hback c' hc'), hcd.trans h1, hca.trans h2⟩
  | denied => exact ⟨hcd.trans h.1, hca.trans h.2⟩
  | redeemed => exact ⟨hcd.trans h.1, hca.trans h.2⟩

theorem history_snoc (cs : List Call) (c : Call) (h : History g cs (Calls.run step g cs)) :
    History g (cs ++ [c]) (step c (Calls.run step g cs)).2 := by
  have hmoves := step_moves c (Calls.run step g cs)
  have hcount : ∀ event : Call → Grant → Bool, Calls.count step event g (cs ++ [c]) =
      Calls.count step event g cs + if event c (Calls.run step g cs) then 1 else 0 :=
    fun event => Calls.count_snoc g event cs c
  have htold : ∀ {state : State}, decides c (Calls.run step g cs) = false → authorizes c (Calls.run step g cs) = false →
      Told g cs state → Told g (cs ++ [c]) state := fun hd ha h => h.quiet hd ha
  have hlast : ∀ {r : Reply}, (step c (Calls.run step g cs)).1 = r → Calls.Answered step g (cs ++ [c]) c r :=
    fun hr => Calls.answered_snoc.mpr (.inr ⟨rfl, hr⟩)
  have honly : ∀ {c' : Call} {r : Reply}, Calls.Answered step g (cs ++ [c]) c' r → Calls.Answered step g cs c' r ∨ c' = c :=
    fun hc' => (Calls.answered_snoc.mp hc').imp_right And.left
  generalize hs : Calls.run step g cs = s at *
  generalize hr : (step c s).1 = r at *
  generalize hs' : (step c s).2 = s' at *
  have hd : decides c s = (r == .decided true) := by rw [decides, hr]
  have ha : authorizes c s = r.authorizes := by rw [authorizes, hr]
  cases hmoves with
  | refused _ _ hrefuses =>
    obtain ⟨hd, ha⟩ := quiet_of_refuses (c := c) (s := s) (hr ▸ hrefuses)
    exact ⟨h.expires, htold hd ha h.told⟩
  | slowed => exact ⟨h.expires, htold hd ha h.told⟩
  | pending => exact ⟨h.expires, htold hd ha h.told⟩
  | approved owner now hstate ht =>
    have hold := h.told
    rw [hstate] at hold
    refine ⟨h.expires, ⟨now, hlast rfl⟩, fun c' hc' => ?_, ?_, ?_⟩
    · rcases honly hc' with hc' | rfl
      · exact absurd hc' (hold.1 c')
      · exact ⟨now, rfl⟩
    · rw [hcount, hold.2.1, hd]
      rfl
    · rw [hcount, hold.2.2, ha]
      rfl
  | denied now hstate ht =>
    have hold := h.told
    rw [hstate] at hold
    refine ⟨h.expires, ?_, ?_⟩
    · rw [hcount, hold.2.1, hd]
      rfl
    · rw [hcount, hold.2.2, ha]
      rfl
  | authorized client proof now next owner hstate ht =>
    have hold := h.told
    rw [hstate] at hold
    refine ⟨h.expires, ?_, ?_⟩
    · rw [hcount, hold.2.2.1, hd]
      rfl
    · rw [hcount, hold.2.2.2, ha]
      rfl

/-- A new grant, over any calls: one poll at most is authorized, for the owner of the one approval and before the grant expires. -/
theorem device_grant {client : String} {proof : VerifiedDpopProof} {endpoints : GrantEndpoints} {now expiresAt interval : UInt64}
    (hg : Grant.new client proof endpoints now expiresAt interval = some g) (cs : List Call) :
    Calls.count step authorizes g cs ≤ 1 ∧ Calls.count step decides g cs ≤ 1 ∧
    ∀ before c after, cs = before ++ c :: after →
      (∀ owner, (step c (Calls.run step g before)).1 = .polled (.authorized owner) →
        (∃ t, Calls.Answered step g before (.approve owner t) (.decided true)) ∧
        (∀ c', Calls.Answered step g before c' (.decided true) → ∃ t, c' = .approve owner t) ∧
        ∃ client proof t, c = .poll client proof t ∧ t < g.expiresAt) ∧
      ((step c (Calls.run step g before)).1.refuses = true → (step c (Calls.run step g before)).2 = Calls.run step g before) ∧
      ((step c (Calls.run step g before)).1 = .polled .slowDown →
        (step c (Calls.run step g before)).2.interval = saturatingAdd (Calls.run step g before).interval 5) ∧
      ((step c (Calls.run step g before)).1 ≠ .polled .slowDown →
        (step c (Calls.run step g before)).2.interval = (Calls.run step g before).interval) ∧
      (Calls.run step g before).interval ≤ (step c (Calls.run step g before)).2.interval := by
  have hpending : g.state = .pending := by
    unfold Grant.new at hg
    split at hg
    · cases hg
    · rw [← Option.some.inj hg]
  have hstart : History g [] g := by
    refine ⟨rfl, ?_⟩
    rw [hpending]
    exact ⟨fun _ => Calls.not_answered_nil, rfl, rfl⟩
  have hist : ∀ cs, History g cs (Calls.run step g cs) := Calls.run_history hstart history_snoc
  refine ⟨?_, ?_, fun before c after _ => ?_⟩
  · have htold := (hist cs).told
    cases hs : (Calls.run step g cs).state with
    | _ => rw [hs] at htold; simp only [Told] at htold; omega
  · have htold := (hist cs).told
    cases hs : (Calls.run step g cs).state with
    | _ => rw [hs] at htold; simp only [Told] at htold; omega
  · have htold := (hist before).told
    have hexpires := (hist before).expires
    have hmoves := step_moves c (Calls.run step g before)
    generalize Calls.run step g before = s at *
    generalize (step c s).1 = r at *
    generalize (step c s).2 = s' at *
    cases hmoves with
    | refused _ _ hrefuses =>
      refine ⟨fun owner hr => ?_, fun _ => rfl, fun hr => ?_, fun _ => rfl, UInt64.le_refl _⟩
      · rw [hr] at hrefuses
        cases hrefuses
      · rw [hr] at hrefuses
        cases hrefuses
    | approved owner t hs ht => exact ⟨(fun _ hr => by cases hr), (fun hr => by cases hr), (fun hr => by cases hr), fun _ => rfl, UInt64.le_refl _⟩
    | denied t hs ht => exact ⟨(fun _ hr => by cases hr), (fun hr => by cases hr), (fun hr => by cases hr), fun _ => rfl, UInt64.le_refl _⟩
    | pending => exact ⟨(fun _ hr => by cases hr), (fun hr => by cases hr), (fun hr => by cases hr), fun _ => rfl, UInt64.le_refl _⟩
    | slowed client proof t next =>
      refine ⟨(fun _ hr => by cases hr), (fun hr => by cases hr), fun _ => rfl, fun hr => absurd rfl hr, ?_⟩
      rw [UInt64.le_iff_toNat_le, toNat_saturatingAdd]
      have hlt := s.interval.toNat_lt
      omega
    | authorized client proof t next owner hs ht =>
      rw [hs] at htold
      refine ⟨fun owner' hr => ?_, (fun hr => by cases hr), (fun hr => by cases hr), fun _ => rfl, UInt64.le_refl _⟩
      cases hr
      exact ⟨htold.1, htold.2.1, client, proof, t, rfl, hexpires ▸ ht⟩

/-! ## The largest interval -/

def Sample.proof (endpoint : String) : VerifiedDpopProof :=
  { thumbprint := "key", jtiHash := "jti", requestMethod := "POST", requestEndpoint := endpoint, tokenTarget := true
    issuedAt := 100, retainUntil := 170, nonce := none }

def Sample.endpoints : GrantEndpoints := ⟨"https://issuer.example/device", "https://issuer.example/token", by decide⟩

/-- A grant whose interval is the largest word. -/
def Sample.grant : Grant :=
  { client := "client", keyThumbprint := "key", tokenEndpoint := "https://issuer.example/token", expiresAt := 200, interval := top
    nextPollAt := top, state := .pending }

def Sample.poll : Call := .poll "client" (Sample.proof "https://issuer.example/token") 105

theorem Sample.grant_new :
    Grant.new "client" (Sample.proof "https://issuer.example/device") Sample.endpoints 100 200 top = some Sample.grant := by
  decide +kernel

/-- An early poll slows the grant down, and its run keeps what a grant keeps. -/
theorem device_grant_slowed : (step Sample.poll Sample.grant).1 = .polled .slowDown ∧
    Calls.count step authorizes Sample.grant [Sample.poll] ≤ 1 :=
  ⟨by decide +kernel, (device_grant Sample.grant_new [Sample.poll]).1⟩

/-- An interval that would pass the largest word stops there. -/
theorem device_grant_saturates : ∃ client proof endpoints now expiresAt interval g c,
    Grant.new client proof endpoints now expiresAt interval = some g ∧ (step c g).1 = .polled .slowDown ∧
      (step c g).2.interval.toNat ≠ g.interval.toNat + 5 :=
  ⟨_, _, _, _, _, _, _, Sample.poll, Sample.grant_new, by decide +kernel, by decide +kernel⟩

end DeviceGrant

end Mikaki.Oidc
