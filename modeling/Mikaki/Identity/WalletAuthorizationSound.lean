import Mikaki.Identity.WalletAuthorization

/-!
# What a wallet's authorization keeps

The phase only advances, every key of the transaction is another one, and what
is staged and received stays within the pool. One lemma says what an update
does; the invariant follows from these.
-/

namespace Mikaki.Identity.Wallet

open Checks
open Calls (run count gathered)

/-- The phases in their order; each may also close. -/
def Phase.Next (p q : Phase) : Prop :=
  q = p ∨ q = .closed ∨ (p = .par ∧ ∃ until_, q = .browser until_) ∨ (∃ until_ code, p = .browser until_ ∧ q = .code code) ∨
    ∃ code access until_, p = .code code ∧ q = .token access until_

/-- A code has been taken, or can be taken no more. -/
def Phase.late : Phase → Bool
  | .par | .browser _ => false
  | _ => true

theorem Phase.Next.late {p q : Phase} (h : p.Next q) (hp : p.late = true) : q.late = true := by
  rcases h with rfl | rfl | ⟨rfl, _⟩ | ⟨_, _, rfl, _⟩ | ⟨_, _, _, _, rfl⟩
  · exact hp
  · rfl
  · cases hp
  · cases hp
  · rfl

theorem tokenAt_eq_true {p : Phase} {now : UInt64} (h : p.tokenAt now = true) : ∃ access until_, p = .token access until_ := by
  cases p with
  | token access until_ => exact ⟨access, until_, rfl⟩
  | par => cases h
  | browser _ => cases h
  | code _ => cases h
  | closed => cases h

theorem isCode_eq_true {p : Phase} (h : p.isCode = true) : ∃ code, p = .code code := by
  cases p with
  | code code => exact ⟨code, rfl⟩
  | par => cases h
  | browser _ => cases h
  | token _ _ => cases h
  | closed => cases h

/-! ## Pairs of a callback -/

theorem mem_of_lookup {pairs : List (String × String)} {name value : String} (h : pairs.lookup name = some value) :
    (name, value) ∈ pairs := by
  obtain ⟨before, after, rfl, -⟩ := List.lookup_eq_some_iff.mp h
  exact List.mem_append_right _ List.mem_cons_self

theorem remove_subset (name : String) (pairs : List (String × String)) : remove name pairs ⊆ pairs :=
  List.filter_sublist.subset

theorem removeFixed_subset {fixed pairs rest : List (String × String)} (h : removeFixed fixed pairs = some rest) :
    rest ⊆ pairs := by
  induction fixed generalizing pairs with
  | nil =>
    cases h
    exact List.Subset.refl _
  | cons p fixed ih =>
    obtain ⟨name, value⟩ := p
    unfold removeFixed at h
    by_cases hp : pairs.lookup name = some value
    · rw [if_pos hp] at h
      exact List.Subset.trans (ih h) (remove_subset name pairs)
    · rw [if_neg hp] at h
      cases h

section
variable {Trust : Type} [Formats Trust]

namespace Authorization

/-! ## What an update does -/

theorem newInner_ok {issuer client callback configuration : String} {stateEntropy verifierEntropy : List UInt8}
    {inst dpop : PublicJwk} {holder : Option PublicJwk} {now : UInt64} {self : Authorization}
    (h : newInner issuer client callback configuration stateEntropy verifierEntropy inst dpop holder now = .ok self) :
    self.inst ≠ self.dpop ∧ (∀ k ∈ self.holder, k ≠ self.inst ∧ k ≠ self.dpop) ∧ self.agePool = none ∧
      self.receivedHolders = [] ∧ self.staged = [] ∧ self.phase = .par := by
  simp only [newInner, bind_eq_ok, exists_unit, denyIf_eq_ok, not_or, pure_eq_ok] at h
  obtain ⟨_, -, _, -, ⟨-, -, -, -, -, -, hne, hk⟩, -, -, -, -, rfl⟩ := h
  refine ⟨hne, fun k hm => ?_, rfl, rfl, rfl, rfl⟩
  obtain rfl := Option.mem_def.mp hm
  simpa using hk

theorem requestAgePool_ok {self next : Authorization} {budget : Budget} {now : UInt64}
    (h : self.requestAgePool budget now = .ok next) :
    self.phase = .par ∧ 2 ≤ budget.size ∧ next = { self with agePool := some budget } := by
  simp only [requestAgePool, Budget.validate, bind_eq_ok, exists_unit, denyIf_eq_ok, not_or, pure_eq_ok, not_not] at h
  obtain ⟨-, ⟨-, hp, -, -⟩, _, ⟨_, -, ⟨hsize, -⟩, -⟩, rfl⟩ := h
  exact ⟨hp, hsize.1, rfl⟩

theorem bindIssuerState_ok {self next : Authorization} {issuerState : String} {now : UInt64}
    (h : self.bindIssuerState issuerState now = .ok next) : next = { self with issuerState := some issuerState } := by
  simp only [bindIssuerState, bind_eq_ok, exists_unit, denyIf_eq_ok, pure_eq_ok] at h
  exact h.2.2.symm

theorem acceptPar_ok {self next : Authorization} {body : Json.Value} {now : UInt64} {target : Url}
    (h : self.acceptPar body now = .ok (target, next)) :
    self.phase = .par ∧ ∃ until_, next = { self with phase := .browser until_ } := by
  simp only [acceptPar, bind_eq_ok, exists_unit, denyIf_eq_ok, pure_eq_ok, not_not, Prod.mk.injEq] at h
  obtain ⟨-, hp, _, -, _, -, -, _, -, -, rfl⟩ := h
  exact ⟨hp, _, rfl⟩

theorem acceptToken_ok {self next : Authorization} {body : Json.Value} {now : UInt64}
    (h : self.acceptToken body now = .ok next) :
    ∃ code access until_, self.phase = .code code ∧
      next = { self with phase := .token access until_, state := "", verifier := "" } := by
  simp only [acceptToken, bind_eq_ok, exists_unit, denyIf_eq_ok, pure_eq_ok, Bool.not_eq_false] at h
  obtain ⟨-, hp, access, -, _, -, -, rfl⟩ := h
  obtain ⟨code, hp⟩ := isCode_eq_true hp
  exact ⟨code, access, _, hp, rfl⟩

theorem finishReceipt_ok {self next : Authorization} {holder : PublicJwk} {now : UInt64}
    (h : self.finishReceipt holder now = .ok next) :
    ∃ access until_ thumbprint, self.phase = .token access until_ ∧ self.holder = some holder ∧
      holder.thumbprint = .ok thumbprint ∧
      next = (let kept := { self with receivedHolders := self.receivedHolders ++ [thumbprint], holder := none }
        if kept.receivedHolders.length = kept.size then kept.cancel else kept) := by
  simp only [finishReceipt, bind_eq_ok, exists_unit, denyIf_eq_ok, not_or, pure_eq_ok, not_not, Bool.not_eq_false] at h
  obtain ⟨-, ⟨-, hp, hh⟩, thumbprint, ht, -, rfl⟩ := h
  obtain ⟨access, until_, hp⟩ := tokenAt_eq_true hp
  exact ⟨access, until_, thumbprint, hp, hh, ht, rfl⟩

theorem bindHolder_ok {self next : Authorization} {holder : PublicJwk} {now : UInt64}
    (h : self.bindHolder holder now = .ok next) :
    self.holder = none ∧ holder ≠ self.inst ∧ holder ≠ self.dpop ∧ (∀ s ∈ self.staged, s.holder ≠ holder) ∧
      (∃ access until_, self.phase = .token access until_) ∧
      (∃ thumbprint, holder.thumbprint = .ok thumbprint ∧ thumbprint ∉ self.receivedHolders) ∧
      next = { self with holder := some holder } := by
  simp only [bindHolder, holderBindingAvailable, bind_eq_ok, exists_unit, denyIf_eq_ok, not_or, pure_eq_ok, not_not] at h
  obtain ⟨⟨-, -, hp, hh⟩, _, -, ⟨hi, hd, hs⟩, thumbprint, ht, hr, rfl⟩ := h
  refine ⟨hh, hi, hd, fun s hm e => hs ?_, tokenAt_eq_true hp, ⟨thumbprint, ht, hr⟩, rfl⟩
  exact List.any_eq_true.mpr ⟨s, hm, decide_eq_true e⟩

theorem credentialRequest_ok {self : Authorization} {nonce attestation : String} {trust : Trust} {signer : Signer}
    {now : UInt64} {payload : Json.Value} (h : self.credentialRequest nonce attestation trust signer now = .ok payload) :
    ∃ access until_, self.phase = .token access until_ := by
  obtain ⟨_, -, h⟩ := bind_eq_ok.mp h
  cases hp : self.phase with
  | token access until_ => exact ⟨access, until_, rfl⟩
  | par => rw [hp] at h; cases h
  | browser _ => rw [hp] at h; cases h
  | code _ => rw [hp] at h; cases h
  | closed => rw [hp] at h; cases h

/-- Staging leaves the transaction, loses its holder key, or moves the key behind the staged ones. -/
theorem stageCredentialProof_cases (self : Authorization) (nonce attestation : String) (trust : Trust) (signer : Signer)
    (now : UInt64) :
    (self.stageCredentialProof nonce attestation trust signer now).2 = self ∨
      (self.stageCredentialProof nonce attestation trust signer now).2 = { self with holder := none } ∨
      ∃ holder proof expiresAt, self.isBatch = true ∧ self.staged.length < self.size ∧
        (∀ s ∈ self.staged.head?, s.nonce = nonce) ∧ (∃ access until_, self.phase = .token access until_) ∧
        self.holder = some holder ∧ (self.stageCredentialProof nonce attestation trust signer now).2 =
          { self with holder := none, staged := self.staged ++ [⟨holder, nonce, proof, expiresAt⟩] } := by
  unfold stageCredentialProof
  by_cases hc : self.isBatch = false ∨ self.size ≤ self.staged.length ∨ (self.staged.head?.any fun s => s.nonce ≠ nonce) = true
  · rw [if_pos hc]
    exact .inl rfl
  · rw [if_neg hc]
    simp only [not_or, Bool.not_eq_false, not_le] at hc
    cases hr : self.credentialRequest nonce attestation trust signer now with
    | error error => exact .inl rfl
    | ok payload =>
      cases hv : Formats.verify attestation nonce trust now with
      | error error => exact .inl rfl
      | ok verified =>
        cases hh : self.holder with
        | none => exact .inl rfl
        | some holder =>
          cases hp : (elementAt (index (index payload "proofs") "jwt") 0).asStr with
          | none =>
            refine .inr (.inl ?_)
            simp only [ok_bind, pure, Except.pure, hp]
          | some proof =>
            refine .inr (.inr ⟨holder, proof, verified.expiresAt, hc.1, hc.2.1, fun s hs => ?_, credentialRequest_ok hr, rfl, ?_⟩)
            · have hall := hc.2.2
              rw [Option.mem_def.mp hs] at hall
              simpa using hall
            · simp only [ok_bind, pure, Except.pure, hp]

theorem finishBatch_ok {self next : Authorization} {holders : List PublicJwk} {now : UInt64}
    (h : self.finishBatch holders now = .ok next) : next = self.cancel := by
  simp only [finishBatch, bind_eq_ok, exists_unit, pure_eq_ok] at h
  obtain ⟨_, -, -, rfl⟩ := h
  rfl

/-- What a callback was that gave a code to a transaction with the issuer and the state of `self`. -/
def Answers (self : Authorization) (input code : String) : Prop :=
  ∃ url, parse input = some url ∧ ((pairsOf url).map Prod.fst).Nodup ∧ ("state", self.state) ∈ pairsOf url ∧
    ("iss", asStr self.issuer) ∈ pairsOf url ∧ ("code", code) ∈ pairsOf url

theorem readCallback_code {self : Authorization} {input code : String} (h : self.readCallback input = .ok (.code code)) :
    self.Answers input code := by
  simp only [readCallback, bind_eq_ok, exists_unit, denyIf_eq_ok, not_or, not_not, orElse_eq_ok] at h
  obtain ⟨-, url, hurl, -, ⟨hn, -⟩, pairs, hpairs, ⟨hstate, hiss⟩, h⟩ := h
  have hsub := removeFixed_subset hpairs
  cases hc : pairs.lookup "code" with
  | none =>
    cases he : pairs.lookup "error" with
    | none => rw [hc, he] at h; cases h
    | some error =>
      rw [hc, he] at h
      obtain ⟨_, -, h⟩ := bind_eq_ok.mp h
      cases h
  | some found =>
    cases he : pairs.lookup "error" with
    | some error => rw [hc, he] at h; cases h
    | none =>
      rw [hc, he] at h
      obtain ⟨_, -, h⟩ := bind_eq_ok.mp h
      cases h
      exact ⟨url, hurl, hn, hsub (mem_of_lookup hstate), hsub (remove_subset _ _ (mem_of_lookup hiss)), hsub (mem_of_lookup hc)⟩

/-- A callback is refused and leaves the transaction, comes too late, is a denial, or gives the code. -/
theorem acceptCallback_cases (self : Authorization) (input : String) (now : UInt64) :
    (∃ error, self.acceptCallback input now = (.error error, self)) ∨
      (∃ error until_, self.phase = .browser until_ ∧ until_ ≤ now ∧ self.acceptCallback input now = (.error error, self.cancel)) ∨
      self.acceptCallback input now = (.ok false, self.cancel) ∨
      ∃ until_ code, self.phase = .browser until_ ∧ self.Answers input code ∧
        self.acceptCallback input now = (.ok true, { self with phase := .code code }) := by
  unfold acceptCallback
  cases hl : self.live now with
  | error error => exact .inl ⟨error, rfl⟩
  | ok _ =>
    cases hp : self.phase with
    | par => exact .inl ⟨_, rfl⟩
    | code _ => exact .inl ⟨_, rfl⟩
    | token _ _ => exact .inl ⟨_, rfl⟩
    | closed => exact .inl ⟨_, rfl⟩
    | browser until_ =>
      dsimp only
      by_cases hu : until_ ≤ now
      · rw [if_pos hu]
        exact .inr (.inl ⟨_, until_, rfl, hu, rfl⟩)
      · rw [if_neg hu]
        cases hr : self.readCallback input with
        | error error => exact .inl ⟨error, rfl⟩
        | ok callback =>
          cases callback with
          | denied => exact .inr (.inr (.inl rfl))
          | code code => exact .inr (.inr (.inr ⟨until_, code, rfl, readCallback_code hr, rfl⟩))

/-! ## The invariant -/

/-- A transaction as one of its two constructors makes it. -/
def Made (self : Authorization) : Prop :=
  ∃ issuer client callback configuration stateEntropy verifierEntropy inst dpop holder now,
    newInner issuer client callback configuration stateEntropy verifierEntropy inst dpop holder now = .ok self

/-- A callback that gives a code. -/
def takes (call : Call Trust) (self : Authorization) : Bool :=
  match call with
  | .acceptCallback input now => match (self.acceptCallback input now).1 with | .ok accepted => accepted | .error _ => false
  | _ => false

/-- The key that a call receives a credential for. -/
def receives (call : Call Trust) (self : Authorization) : List PublicJwk :=
  match call with
  | .finishReceipt holder now => if (self.finishReceipt holder now).isOk then [holder] else []
  | _ => []

/-- The keys that belong to holders: the bound one, the staged ones and those received. -/
def holders (self : Authorization) (received : List PublicJwk) : List PublicJwk :=
  self.holder.toList ++ self.staged.map Staged.holder ++ received

/-- What holds of a transaction that began as `start` and has received credentials for `received`. -/
structure Sound (start : Authorization) (received : List PublicJwk) (s : Authorization) : Prop where
  inst : s.inst = start.inst
  dpop : s.dpop = start.dpop
  issuer : s.issuer = start.issuer
  state : s.phase.late = false → s.state = start.state
  keys : (s.inst :: s.dpop :: s.holders received).Nodup
  thumbprints : s.receivedHolders.map Except.ok = received.map PublicJwk.thumbprint
  early : (∀ access until_, s.phase ≠ .token access until_) → s.phase ≠ .closed → s.staged = [] ∧ received = []
  batch : s.staged ≠ [] → s.isBatch = true
  room : s.staged.length ≤ s.size
  nonce : ∀ a ∈ s.staged, ∀ b ∈ s.staged, a.nonce = b.nonce
  receipts : received.length ≤ s.size
  left : s.phase ≠ .closed → received.length < s.size

theorem Made.sound {self : Authorization} (h : self.Made) : Sound self [] self := by
  obtain ⟨_, _, _, _, _, _, _, _, _, _, h⟩ := h
  obtain ⟨hne, hk, hpool, hreceived, hstaged, hphase⟩ := newInner_ok h
  refine ⟨rfl, rfl, rfl, fun _ => rfl, ?_, by rw [hreceived]; rfl, fun _ _ => ⟨hstaged, rfl⟩, fun h => absurd hstaged h,
    (by rw [hstaged]; exact Nat.zero_le _), (by rw [hstaged]; intro a ha; cases ha), Nat.zero_le _, fun _ => ?_⟩
  · unfold holders
    rw [hstaged]
    cases hh : self.holder with
    | none => simpa using hne
    | some k =>
      obtain ⟨hi, hd⟩ := hk k hh
      simp only [Option.toList, List.map_nil, List.append_nil, List.nodup_cons, List.mem_cons, List.not_mem_nil, or_false,
        not_or, not_false_eq_true, List.nodup_nil, and_true]
      exact ⟨⟨hne, hi.symm⟩, hd.symm⟩
  · unfold size
    rw [hpool]
    exact Nat.one_pos

section
variable {start s : Authorization} {received : List PublicJwk}

omit [Formats Trust] in
theorem holders_nodup_of_perm {inst dpop : PublicJwk} {ks ls : List PublicJwk} (h : (inst :: dpop :: ks).Nodup) (hp : ks.Perm ls) :
    (inst :: dpop :: ls).Nodup :=
  ((hp.cons dpop).cons inst).nodup_iff.mp h

theorem Sound.cancel (h : Sound start received s) : Sound start received s.cancel where
  inst := h.inst
  dpop := h.dpop
  issuer := h.issuer
  state hl := by cases hl
  keys := by
    refine h.keys.sublist (((List.Sublist.append ?_ (List.Sublist.refl _)).cons_cons _).cons_cons _)
    exact (List.Sublist.refl _).append (List.nil_sublist _)
  thumbprints := h.thumbprints
  early _ hc := absurd rfl hc
  batch hs := absurd rfl hs
  room := Nat.zero_le _
  nonce a ha := by cases ha
  receipts := h.receipts
  left hc := absurd rfl hc

/-- Moving on to a later phase that is not the last one needs the keys to be untouched before the token. -/
theorem Sound.advance (h : Sound start received s) {next : Authorization} {phase : Phase} {state verifier : String}
    (hn : next = { s with phase, state, verifier }) (hopen : s.phase ≠ .closed)
    (htoken : ∀ access until_, s.phase ≠ .token access until_) (hstate : phase.late = false → state = start.state) :
    Sound start received next := by
  subst hn
  have hfirst := h.early htoken hopen
  exact ⟨h.inst, h.dpop, h.issuer, hstate, h.keys, h.thumbprints, fun _ _ => hfirst, h.batch, h.room, h.nonce, h.receipts,
    fun _ => h.left hopen⟩

theorem Sound.requestAgePool (h : Sound start received s) {budget : Budget} (hp : s.phase = .par) (hsize : 2 ≤ budget.size) :
    Sound start received { s with agePool := some budget } := by
  obtain ⟨hs, hr⟩ := h.early (by rw [hp]; intro _ _ h; cases h) (by rw [hp]; intro h; cases h)
  have hpos : received.length < budget.size := by rw [hr]; exact Nat.lt_of_lt_of_le Nat.two_pos hsize
  exact ⟨h.inst, h.dpop, h.issuer, h.state, h.keys, h.thumbprints, h.early, fun hne => absurd hs hne,
    by change s.staged.length ≤ _; rw [hs]; exact Nat.zero_le _, h.nonce, Nat.le_of_lt hpos, fun _ => hpos⟩

theorem Sound.bindHolder (h : Sound start received s) {holder : PublicJwk} {thumbprint : String} (hn : s.holder = none)
    (hi : holder ≠ s.inst) (hd : holder ≠ s.dpop) (hs : ∀ k ∈ s.staged, k.holder ≠ holder)
    (ht : holder.thumbprint = .ok thumbprint) (hr : thumbprint ∉ s.receivedHolders) :
    Sound start received { s with holder := some holder } := by
  refine ⟨h.inst, h.dpop, h.issuer, h.state, ?_, h.thumbprints, h.early, h.batch, h.room, h.nonce, h.receipts, h.left⟩
  have hfresh : holder ∉ s.holders received := by
    unfold holders
    rw [hn]
    simp only [Option.toList, List.nil_append, List.mem_append, List.mem_map, not_or, not_exists, not_and]
    refine ⟨hs, fun hm => hr ?_⟩
    have hmem := List.mem_map_of_mem (f := PublicJwk.thumbprint) hm
    rw [← h.thumbprints, ht] at hmem
    obtain ⟨t, hmem, ht⟩ := List.mem_map.mp hmem
    exact Except.ok.inj ht ▸ hmem
  have hkeys := h.keys
  unfold holders at hkeys hfresh ⊢
  rw [hn] at hkeys hfresh
  simp only [List.nodup_cons, List.mem_cons, not_or] at hkeys ⊢
  exact ⟨⟨hkeys.1.1, fun hm => (List.mem_cons.mp hm).elim (fun e => hi e.symm) hkeys.1.2⟩,
    fun hm => (List.mem_cons.mp hm).elim (fun e => hd e.symm) hkeys.2.1, List.nodup_cons.mpr ⟨hfresh, hkeys.2.2⟩⟩

theorem Sound.finishReceipt (h : Sound start received s) {holder : PublicJwk} {thumbprint : String} (hopen : s.phase ≠ .closed)
    (htoken : ∃ access until_, s.phase = .token access until_) (hh : s.holder = some holder)
    (ht : holder.thumbprint = .ok thumbprint) {next : Authorization}
    (hn : next = { s with receivedHolders := s.receivedHolders ++ [thumbprint], holder := none }) :
    (next.receivedHolders.length = next.size → Sound start (received ++ [holder]) next.cancel) ∧
      (next.receivedHolders.length ≠ next.size → Sound start (received ++ [holder]) next) := by
  subst hn
  have hlen : s.receivedHolders.length = received.length := by simpa using congrArg List.length h.thumbprints
  have hle : (received ++ [holder]).length ≤ s.size := by
    rw [List.length_append]
    exact h.left hopen
  have hkeys : (s.inst :: s.dpop :: (s.staged.map Staged.holder ++ (received ++ [holder]))).Nodup := by
    refine holders_nodup_of_perm h.keys ?_
    unfold holders
    rw [hh, ← List.append_assoc]
    exact @List.perm_append_comm _ [holder] _
  have hthumb : (s.receivedHolders ++ [thumbprint]).map Except.ok = (received ++ [holder]).map PublicJwk.thumbprint := by
    rw [List.map_append, List.map_append, h.thumbprints, List.map_singleton, List.map_singleton, ht]
  obtain ⟨access, until_, hp⟩ := htoken
  constructor
  · intro _
    refine ⟨h.inst, h.dpop, h.issuer, (by intro hl; cases hl), ?_, hthumb, fun _ hc => absurd rfl hc, fun hs => absurd rfl hs,
      Nat.zero_le _, (by intro a ha; cases ha), hle, fun hc => absurd rfl hc⟩
    exact hkeys.sublist (((List.sublist_append_right _ _).cons_cons _).cons_cons _)
  · intro hne
    refine ⟨h.inst, h.dpop, h.issuer, h.state, hkeys, hthumb, fun hall => absurd hp (hall access until_), h.batch, h.room,
      h.nonce, hle, fun _ => Nat.lt_of_le_of_ne hle fun he => hne ?_⟩
    have hsize : (received ++ [holder]).length = s.size := he
    change (s.receivedHolders ++ [thumbprint]).length = s.size
    rw [← hsize, List.length_append, List.length_append, hlen]
    rfl

theorem Sound.taken (h : Sound start received s) : Sound start received { s with holder := none } where
  inst := h.inst
  dpop := h.dpop
  issuer := h.issuer
  state := h.state
  keys := h.keys.sublist ((((List.nil_sublist _).append (List.Sublist.refl _)).append (List.Sublist.refl _)).cons_cons _ |>.cons_cons _)
  thumbprints := h.thumbprints
  early := h.early
  batch := h.batch
  room := h.room
  nonce := h.nonce
  receipts := h.receipts
  left := h.left

theorem Sound.stage (h : Sound start received s) {holder : PublicJwk} {nonce proof : String} {expiresAt : UInt64}
    (hb : s.isBatch = true) (hroom : s.staged.length < s.size) (hn : ∀ k ∈ s.staged.head?, k.nonce = nonce)
    (htoken : ∃ access until_, s.phase = .token access until_) (hh : s.holder = some holder) :
    Sound start received { s with holder := none, staged := s.staged ++ [⟨holder, nonce, proof, expiresAt⟩] } := by
  have hall : ∀ k ∈ s.staged ++ [⟨holder, nonce, proof, expiresAt⟩], k.nonce = nonce := by
    intro k hk
    rcases List.mem_append.mp hk with hk | hk
    · cases hs : s.staged with
      | nil => rw [hs] at hk; cases hk
      | cons first rest =>
        have hfirst : first ∈ s.staged := by rw [hs]; exact List.mem_cons_self
        exact (h.nonce k hk first hfirst).trans (hn first (by rw [hs]; rfl))
    · rw [List.mem_singleton.mp hk]
  obtain ⟨access, until_, hp⟩ := htoken
  refine ⟨h.inst, h.dpop, h.issuer, h.state, ?_, h.thumbprints, fun ht => absurd hp (ht access until_), fun _ => hb, ?_,
    fun a ha b hb => (hall a ha).trans (hall b hb).symm, h.receipts, h.left⟩
  · refine holders_nodup_of_perm h.keys ?_
    unfold holders
    rw [hh, List.map_append]
    exact (@List.perm_append_comm _ [holder] _).append_right received
  · change (s.staged ++ [_]).length ≤ s.size
    rw [List.length_append]
    exact hroom

end

/-! ## Every call, and every run -/

theorem updated_error {self : Authorization} {error : String} : (updated self (.error error)).2 = self := rfl

/-- A call moves the phase by one at most, and keeps the invariant with what it receives. -/
theorem step_sound {start s : Authorization} {received : List PublicJwk} (h : Sound start received s) (call : Call Trust) :
    s.phase.Next (step call s).2.phase ∧ Sound start (received ++ receives call s) (step call s).2 := by
  have same : s.phase.Next s.phase ∧ Sound start (received ++ []) s := ⟨.inl rfl, by rwa [List.append_nil]⟩
  have stop : s.phase.Next s.cancel.phase ∧ Sound start (received ++ []) s.cancel :=
    ⟨.inr (.inl rfl), by rw [List.append_nil]; exact h.cancel⟩
  cases call with
  | requestAgePool budget now =>
    dsimp only [step, receives]
    cases hr : s.requestAgePool budget now with
    | error error => exact same
    | ok next =>
      obtain ⟨hp, hsize, rfl⟩ := requestAgePool_ok hr
      exact ⟨.inl rfl, by rw [List.append_nil]; exact h.requestAgePool hp hsize⟩
  | bindIssuerState issuerState now =>
    dsimp only [step, receives]
    cases hr : s.bindIssuerState issuerState now with
    | error error => exact same
    | ok next =>
      obtain rfl := bindIssuerState_ok hr
      refine ⟨.inl rfl, ?_⟩
      rw [List.append_nil]
      exact ⟨h.inst, h.dpop, h.issuer, h.state, h.keys, h.thumbprints, h.early, h.batch, h.room, h.nonce, h.receipts, h.left⟩
  | acceptPar body now =>
    dsimp only [step, receives]
    cases hr : s.acceptPar body now with
    | error error => exact same
    | ok result =>
      obtain ⟨target, next⟩ := result
      obtain ⟨hp, until_, hn⟩ := acceptPar_ok hr
      dsimp only
      rw [List.append_nil, hn]
      refine ⟨.inr (.inr (.inl ⟨hp, until_, rfl⟩)), h.advance rfl ?_ ?_ fun _ => h.state (by rw [hp]; rfl)⟩
      · rw [hp]; intro h; cases h
      · rw [hp]; intro _ _ h; cases h
  | acceptCallback input now =>
    dsimp only [step, receives]
    rcases s.acceptCallback_cases input now with ⟨error, hr⟩ | ⟨error, _, -, -, hr⟩ | hr | ⟨until_, code, hp, -, hr⟩
    · rw [hr]; exact same
    · rw [hr]; exact stop
    · rw [hr]; exact stop
    · rw [hr, List.append_nil]
      refine ⟨.inr (.inr (.inr (.inl ⟨until_, code, hp, rfl⟩))), h.advance rfl ?_ ?_ (by intro hl; cases hl)⟩
      · rw [hp]; intro h; cases h
      · rw [hp]; intro _ _ h; cases h
  | tokenParameters now => exact same
  | acceptToken body now =>
    dsimp only [step, receives]
    cases hr : s.acceptToken body now with
    | error error => exact same
    | ok next =>
      obtain ⟨code, access, until_, hp, rfl⟩ := acceptToken_ok hr
      rw [List.append_nil]
      refine ⟨.inr (.inr (.inr (.inr ⟨code, access, until_, hp, rfl⟩))), h.advance rfl ?_ ?_ (by intro hl; cases hl)⟩
      · rw [hp]; intro h; cases h
      · rw [hp]; intro _ _ h; cases h
  | authorizationHeader now => exact same
  | holderBindingAvailable now => exact same
  | bindHolder holder now =>
    dsimp only [step, receives]
    cases hr : s.bindHolder holder now with
    | error error => exact same
    | ok next =>
      obtain ⟨hh, hi, hd, hs, -, ⟨thumbprint, ht, hnew⟩, rfl⟩ := bindHolder_ok hr
      exact ⟨.inl rfl, by rw [List.append_nil]; exact h.bindHolder hh hi hd hs ht hnew⟩
  | credentialRequest nonce attestation trust signer now => exact same
  | stageCredentialProof nonce attestation trust signer now =>
    dsimp only [step, receives]
    rcases s.stageCredentialProof_cases nonce attestation trust signer now with
      hr | hr | ⟨holder, proof, expiresAt, hb, hroom, hn, htoken, hh, hr⟩
    · rw [hr]; exact same
    · rw [hr, List.append_nil]; exact ⟨.inl rfl, h.taken⟩
    · rw [hr, List.append_nil]; exact ⟨.inl rfl, h.stage hb hroom hn htoken hh⟩
  | batchCredentialRequest now => exact same
  | finishBatch holders now =>
    dsimp only [step, receives]
    cases hr : s.finishBatch holders now with
    | error error => exact same
    | ok next =>
      obtain rfl := finishBatch_ok hr
      exact stop
  | finishReceipt holder now =>
    dsimp only [step, receives]
    cases hr : s.finishReceipt holder now with
    | error error => exact same
    | ok next =>
      obtain ⟨access, until_, thumbprint, hp, hh, ht, hn⟩ := finishReceipt_ok hr
      have hopen : s.phase ≠ .closed := by rw [hp]; intro h; cases h
      have hkept := h.finishReceipt hopen ⟨access, until_, hp⟩ hh ht rfl
      dsimp only at hn
      change s.phase.Next next.phase ∧ Sound start (received ++ [holder]) next
      split at hn
      · rename_i hsize
        rw [hn]
        exact ⟨.inr (.inl rfl), hkept.1 hsize⟩
      · rename_i hsize
        rw [hn]
        exact ⟨.inl rfl, hkept.2 hsize⟩
  | cancel => exact stop

theorem run_sound {self : Authorization} (h : self.Made) (calls : List (Call Trust)) :
    Sound self (gathered step receives self calls) (run step self calls) := by
  refine Calls.run_history (P := fun cs s => Sound self (gathered step receives self cs) s) h.sound ?_ calls
  intro cs call hs
  rw [Calls.gathered_snoc]
  exact (step_sound hs call).2

/-- Only a callback in the phase of the browser gives a code, and it gives the one it carries. -/
theorem takes_cases {call : Call Trust} {s : Authorization} (h : takes call s = true) :
    ∃ input now until_ code, call = .acceptCallback input now ∧ s.phase = .browser until_ ∧ s.Answers input code ∧
      (step call s).2.phase = .code code := by
  cases call with
  | acceptCallback input now =>
    dsimp only [takes] at h
    rcases s.acceptCallback_cases input now with ⟨error, hr⟩ | ⟨error, _, -, -, hr⟩ | hr | ⟨until_, code, hp, ha, hr⟩
    · rw [hr] at h; cases h
    · rw [hr] at h; cases h
    · rw [hr] at h; cases h
    · exact ⟨input, now, until_, code, rfl, hp, ha, by simp only [step, hr]⟩
  | _ => cases h

theorem count_takes {self : Authorization} (h : self.Made) (calls : List (Call Trust)) : count step takes self calls ≤ 1 := by
  refine Calls.count_le_one (I := fun s => ∃ received, Sound self received s) (Q := fun s => s.phase.late = true)
    ?_ ?_ ?_ ?_ ⟨_, h.sound⟩ calls
  · intro c s ⟨received, hs⟩
    exact ⟨_, (step_sound hs c).2⟩
  · intro c s ⟨received, hs⟩ hq
    exact (step_sound hs c).1.late hq
  · intro c s _ hq
    by_contra hc
    obtain ⟨_, _, _, _, -, hp, -⟩ := takes_cases (Bool.not_eq_false _ ▸ hc)
    rw [hp] at hq
    cases hq
  · intro c s _ hc
    obtain ⟨_, _, _, code, -, -, -, hp⟩ := takes_cases hc
    rw [hp]
    rfl

theorem Answers.pinned {self s : Authorization} {input code : String} (hi : s.issuer = self.issuer) (hs : s.state = self.state)
    (h : s.Answers input code) : self.Answers input code := by
  obtain ⟨url, hurl, hn, hstate, hiss, hcode⟩ := h
  exact ⟨url, hurl, hn, hs ▸ hstate, hi ▸ hiss, hcode⟩

/-- In every run of a transaction the phase advances step by step or closes; one code at most is taken, from a callback with
the pinned state and issuer; the keys are pairwise distinct; what is staged shares a nonce and fits the batch, and what is
received fits the pool; and a refused callback leaves the transaction, unless the browser's time is over, which closes it. -/
theorem authorization_runs (self : Authorization) (h : self.Made) (calls : List (Call Trust)) :
    (∀ call, (run step self calls).phase.Next (step call (run step self calls)).2.phase) ∧
      count step takes self calls ≤ 1 ∧
      (∀ call, takes call (run step self calls) = true → ∃ input now code, call = .acceptCallback input now ∧
        self.Answers input code ∧ (step call (run step self calls)).2.phase = .code code) ∧
      (self.inst :: self.dpop :: (run step self calls).holders (gathered step receives self calls)).Nodup ∧
      (run step self calls).receivedHolders.map Except.ok = (gathered step receives self calls).map PublicJwk.thumbprint ∧
      ((run step self calls).staged ≠ [] → (run step self calls).isBatch = true) ∧
      (run step self calls).staged.length ≤ (run step self calls).size ∧
      (∀ a ∈ (run step self calls).staged, ∀ b ∈ (run step self calls).staged, a.nonce = b.nonce) ∧
      (gathered step receives self calls).length ≤ (run step self calls).size ∧
      ∀ input now error, ((run step self calls).acceptCallback input now).1 = .error error →
        ((run step self calls).acceptCallback input now).2 = run step self calls ∨
          ∃ until_, (run step self calls).phase = .browser until_ ∧ until_ ≤ now ∧
            ((run step self calls).acceptCallback input now).2 = (run step self calls).cancel := by
  have hs := run_sound h calls
  refine ⟨fun call => (step_sound hs call).1, count_takes h calls, fun call hc => ?_, ?_, hs.thumbprints, hs.batch, hs.room, hs.nonce,
    hs.receipts, fun input now error he => ?_⟩
  · obtain ⟨input, now, until_, code, rfl, hp, ha, hnext⟩ := takes_cases hc
    exact ⟨input, now, code, rfl, ha.pinned hs.issuer (hs.state (by rw [hp]; rfl)), hnext⟩
  · have hkeys := hs.keys
    rwa [hs.inst, hs.dpop] at hkeys
  · rcases (run step self calls).acceptCallback_cases input now with ⟨_, hr⟩ | ⟨_, until_, hp, hu, hr⟩ | hr | ⟨_, _, -, -, hr⟩
    · rw [hr]; exact .inl rfl
    · rw [hr]; exact .inr ⟨until_, hp, hu, rfl⟩
    · rw [hr] at he; cases he
    · rw [hr] at he; cases he

end Authorization

end

/-! ## A transaction that waits for its browser -/

namespace Sample

def url (host path : String) (query : Option String) : Url := ⟨"https", "", none, some host, none, path, query, none⟩

def text (url : Url) : String :=
  url.scheme ++ "://" ++ url.host.getD "" ++ url.path ++ ((url.query.map fun query => "?" ++ query).getD "")

def letters (n : Nat) (c : Char) : String := String.ofList (List.replicate n c)

def issuer : Url := url "issuer.example" "/tenant" none

def callback : Url := url "wallet.example" "/callback" none

/-- The browser comes back with the code. -/
def answer : Url := url "wallet.example" "/callback" (some "answer")

/-- Four URLs are known, keys and entropy are letters, and no attestation is trusted. -/
@[reducible] def formats : Formats Unit where
  decode64 s := some (Text.bytes s)
  encode64 bytes := String.ofList (bytes.map fun b => Char.ofNat b.toNat)
  parse s := [issuer, callback, answer, url "issuer.example" "/tenant/authorize" none].find? fun url => text url = s
  asStr := text
  queryPairs query :=
    if query = "answer" then [("code", letters 43 'c'), ("state", letters 32 's'), ("iss", text issuer)] else []
  appendPair url _ _ := url
  onCurve _ := true
  verify _ _ _ _ := .error "invalid_proof"

def key (c : Char) : PublicJwk := ⟨"EC", "P-256", letters 32 c, letters 32 'y'⟩

def started : Authorization :=
  { issuer, client := "wallet", callback, configuration := "linked_document", issuerState := none, state := letters 32 's'
    verifier := letters 32 'v', inst := key 'a', dpop := key 'b', holder := none, agePool := none, receivedHolders := []
    staged := [], until_ := 1180, phase := .par }

theorem started_made : @Authorization.Made Unit formats started :=
  ⟨"https://issuer.example/tenant", "wallet", "https://wallet.example/callback", "linked_document", List.replicate 32 115,
    List.replicate 32 118, key 'a', key 'b', none, 1000, by rfl⟩

/-- The pushed request is accepted for a minute. -/
def pushed : Authorization.Call Unit :=
  .acceptPar (.obj [("request_uri", .str ("urn:ietf:params:oauth:request_uri:" ++ letters 43 'u')), ("expires_in", .num 60)]) 1000

end Sample

namespace Authorization

open Sample

/-- The code of the browser is taken, and only once. -/
theorem authorization_runs_once :
    @count _ _ _ (@step Unit formats) (@takes Unit formats) started
        [pushed, .acceptCallback (text answer) 1010, .acceptCallback (text answer) 1011] = 1 := by
  let _ := formats
  refine Nat.le_antisymm (authorization_runs started started_made _).2.1 ?_
  decide +kernel

/-- A callback that is refused may close the transaction: the browser's minute is over. -/
theorem authorization_runs_late :
    ¬∀ (Trust : Type) [Formats Trust] (self : Authorization), self.Made → ∀ (calls : List (Call Trust)) input now error,
      ((run step self calls).acceptCallback input now).1 = .error error →
        ((run step self calls).acceptCallback input now).2.phase = (run step self calls).phase := by
  intro h
  let _ := formats
  have hp := h Unit started started_made [pushed] (text answer) 1060 "wallet_transaction_unavailable"
  exact absurd (hp (by rfl)) (by decide +kernel)

end Authorization

end Mikaki.Identity.Wallet
