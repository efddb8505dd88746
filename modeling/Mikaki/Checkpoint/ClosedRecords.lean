import Mikaki.Checkpoint.LedgerSteps

/-!
# Closed records

A closed effect never changes. A closed mint changes in two ways only: one that
was closed by a refused bearer takes a first receipt, and one that was closed
by a receipt takes a first refusal. `Completes` says when a call does so, and
is exactly when a closed record changes.
-/

namespace Mikaki.WorkCheckpoint

open Checks Rows

/-! ## The evidence projection -/

def Purpose.text : Purpose → String
  | .upload => "upload"
  | .readback => "readback"

structure InitialEvidence where
  plan : InitialPlan
  closure : Closure

structure MintEvidence where
  plan : MintPlan
  observation : MintObservation
  refusal : MintRefusal
  gitPlan : GitPlan
  gitResult : GitResult

def EffectRecord.evidence (r : EffectRecord) : Except Fault InitialEvidence := do
  match r.state, r.closure with
  | .closed, some c =>
    initialPlan r.plan
    Mikaki.WorkCheckpoint.closure c
    return ⟨r.plan, c⟩
  | _, _ => .error .preparationIncomplete

def MintRecord.evidence (purpose : String) (r : MintRecord) : Except Fault MintEvidence := do
  denyIf (r.plan.purpose.text ≠ purpose) .preparationIncomplete
  match r.state, r.refusal, r.observation, r.git with
  | .closed, some f, some o, some ⟨plan, .completed, some result⟩ =>
    mintPlan r.plan
    mintObservation o
    mintRefusal f.value
    gitPlan plan
    gitResult result plan
    return ⟨r.plan, o, f.value, plan, result⟩
  | _, _, _, _ => .error .preparationIncomplete

namespace Ledger

/-- The evidence of each attempt in turn; `seen` are the attempts before it. -/
def collectEvidence (l : Ledger) (seen : List String) :
    List (String × String) → Except Fault (List InitialEvidence × List MintEvidence)
  | [] => .ok ([], [])
  | (attempt, purpose) :: rest => do
    denyIf (opaqueId attempt = false ∨ attempt ∈ seen) .preparationInvalid
    if purpose = "initial" then
      match l.effectAt attempt with
      | none => .error .preparationIncomplete
      | some r =>
        let e ← r.evidence
        let (initial, mint) ← l.collectEvidence (attempt :: seen) rest
        return (e :: initial, mint)
    else
      match l.mintAt attempt with
      | none => .error .preparationIncomplete
      | some r =>
        let e ← r.evidence purpose
        let (initial, mint) ← l.collectEvidence (attempt :: seen) rest
        return (initial, e :: mint)

def preparationEvidence (l : Ledger) (attempts : List (String × String)) :
    Except Fault (List InitialEvidence × List MintEvidence) := do
  denyIf (attempts.length ≠ 6) .preparationInvalid
  let (initial, mint) ← l.collectEvidence [] attempts
  denyIf (initial.length ≠ 2 ∨ mint.length ≠ 4) .preparationIncomplete
  return (initial, mint)

/-- Every closed record of the first ledger is in the second as it was. -/
def ClosedSame (l l' : Ledger) : Prop :=
  (∀ a r, l.effectAt a = some r → r.state = .closed → l'.effectAt a = some r) ∧
    ∀ a r, l.mintAt a = some r → r.state = .closed → l'.mintAt a = some r

/-- The call is a `closeMint` that is admitted on a mint closed without a receipt, or a `closeMintRefused` that is
admitted on a mint closed without a refusal. -/
def Completes (c : Call) (l : Ledger) : Prop :=
  (∃ r digest receipt, c = .closeMint r.attempt digest receipt ∧ opaqueId r.attempt = true ∧ hex receipt = true ∧
    l.mintAt r.attempt = some r ∧ r.state = .closed ∧ r.receipt = none ∧ r.plan.digest = digest ∧
      ∃ o ∈ r.observation, o.scope = r.plan.scope ∧ o.expiresAt ≤ r.plan.expiresAt) ∨
  ∃ r digest input now, c = .closeMintRefused r.attempt digest input now ∧ opaqueId r.attempt = true ∧
    mintRefusal input = .ok () ∧ l.mintAt r.attempt = some r ∧ r.state = .closed ∧ r.refusal = none ∧ r.cleanup ≠ none ∧
      r.plan.digest = digest ∧ r.observation = some input.toMintObservation ∧ input.keyVersion = r.plan.keyVersion

end Ledger

/-! ## Moves of a closed record -/

theorem EffectMove.closed {r r' : EffectRecord} (m : EffectMove r r') (h : r.Sound) (hs : r.state = .closed) : r' = r := by
  obtain ⟨c, hc, hr⟩ := h.closed hs
  rw [Option.mem_def] at hc
  cases m with
  | observe repoId ho =>
    have he : r.repoId = some repoId := ho.resolve_left (by rw [hr]; simp)
    rw [← he]
  | close input hi hm =>
    obtain ⟨ht, hx, hrc⟩ := hm c hc
    have he : c = input := by
      cases c; cases input
      simp_all
    rw [← he, ← hc, ← hs]
  | observeToken o hu => rw [hs] at hu; cases hu
  | recordInventory c hu => rw [hs] at hu; cases hu

/-- A closed mint stays as it is, or takes the receipt or the refusal that it has not. -/
theorem MintMove.closed {c : Call} {r r' : MintRecord} (m : MintMove c r r') (h : r.Sound) (hs : r.state = .closed) :
    r' = r ∨ (r.receipt = none ∧ ∃ digest receipt, c = .closeMint r.attempt digest receipt) ∨
      (r.refusal = none ∧ ∃ digest input now, c = .closeMintRefused r.attempt digest input now) := by
  cases m with
  | observe input hp ho =>
    obtain ⟨o, hob⟩ := Option.ne_none_iff_exists'.mp (h.closed hs).2
    obtain ⟨ht, hsc, hx⟩ := ho o hob
    have hrepo : o.repoId = input.repoId := (h.observed o hob).trans hp
    have he : o = input := by
      cases o; cases input
      simp_all
    exact .inl (by rw [← he, ← hob])
  | close digest receipt hc hq ho hx =>
    cases hr : r.receipt with
    | none => exact .inr (.inl ⟨rfl, digest, receipt, hc⟩)
    | some x => exact .inl (by rw [← hx x hr, ← hr, ← hs])
  | closeRefused digest input now f hc hq ho hx =>
    cases hr : r.refusal with
    | none => exact .inr (.inr ⟨rfl, digest, input, now, hc⟩)
    | some x => exact .inl (by rw [← hx x hr, ← hr, ← hs])
  | custody hn | requestCleanup _ hn | finish _ hn | complete _ _ hn => exact absurd hs hn
  | recordCleanup x hu | admission _ _ _ hu | take _ _ _ _ hu => rw [hs] at hu; cases hu

/-! ## One call -/

namespace Ledger

variable {authority : String} {c : Call} {l l' l'' : Ledger}

theorem closeMint_completes {a digest receipt : String} {r : MintRecord} {y : Reply}
    (hm : l.mintAt a = some r) (hs : r.state = .closed) (hr : r.receipt = none)
    (h : l.answer authority (.closeMint a digest receipt) = .ok (y, l')) : Completes (.closeMint a digest receipt) l := by
  rw [answer] at h
  obtain ⟨r', h, -⟩ := recorded_eq_ok.mp h
  obtain ⟨hx, h⟩ := check_bind_eq_ok.mp h
  obtain ⟨ho, b, hb, hc, -⟩ := onMint_eq_ok.mp h
  rw [hm] at hb
  cases hb
  obtain ⟨⟨hd, -, hob, -⟩, -⟩ := MintRecord.close_eq_ok.mp hc
  have ha : r.attempt = a := (lookup_mem hm).2
  subst ha
  exact .inl ⟨r, digest, receipt, rfl, ho, by simpa using hx, hm, hs, hr, hd, hob⟩

theorem closeMintRefused_completes {a digest : String} {input : MintRefusal} {now : Nat} {r : MintRecord} {y : Reply}
    (hm : l.mintAt a = some r) (hs : r.state = .closed) (hr : r.refusal = none)
    (h : l.answer authority (.closeMintRefused a digest input now) = .ok (y, l')) :
    Completes (.closeMintRefused a digest input now) l := by
  rw [answer] at h
  obtain ⟨r', h, -⟩ := recorded_eq_ok.mp h
  obtain ⟨hx, h⟩ := check_bind_eq_ok.mp h
  obtain ⟨ho, b, hb, hc, -⟩ := onMint_eq_ok.mp h
  rw [hm] at hb
  cases hb
  obtain ⟨⟨hob, hcl, -, hd, -, hk, -⟩, -⟩ := MintRecord.closeRefused_eq_ok.mp hc
  have ha : r.attempt = a := (lookup_mem hm).2
  subst ha
  exact .inr ⟨r, digest, input, now, rfl, ho, hx, hm, hs, hr, hcl, hd, hob, hk⟩

theorem ClosedSame.refl (l : Ledger) : ClosedSame l l := ⟨fun _ _ h _ => h, fun _ _ h _ => h⟩

theorem ClosedSame.trans (h : ClosedSame l l') (h' : ClosedSame l' l'') : ClosedSame l l'' :=
  ⟨fun a r hr hs => h'.1 a r (h.1 a r hr hs) hs, fun a r hr hs => h'.2 a r (h.2 a r hr hs) hs⟩

theorem step_closedSame (h : l.Wf) (hc : ¬Completes c l) : ClosedSame l (step authority c l).2 := by
  constructor
  · intro a r hr hs
    obtain ⟨r', hr', rfl | m⟩ := Change.effect_later (step_change authority c l) hr
    · exact hr'
    · rw [m.closed (h.effect r (lookup_mem hr).1) hs] at hr'
      exact hr'
  · intro a r hr hs
    by_cases hok : succeeds authority c l = true
    · obtain ⟨y, hy⟩ := answer_ok hok
      obtain ⟨r', hr', rfl | m⟩ := mint_step authority c h hr
      · exact hr'
      · have ha : r.attempt = a := (lookup_mem hr).2
        subst ha
        rcases m.closed (h.mint r (lookup_mem hr).1) hs with rfl | ⟨hn, _, _, rfl⟩ | ⟨hn, _, _, _, rfl⟩
        · exact hr'
        · exact absurd (closeMint_completes hr hs hn hy) hc
        · exact absurd (closeMintRefused_completes hr hs hn hy) hc
    · rw [step_of_fails (Bool.not_eq_true _ ▸ hok)]
      exact hr

theorem closeMint_step {a digest receipt : String} {r r' : MintRecord} (ho : opaqueId a = true) (hx : hex receipt = true)
    (hm : l.mintAt a = some r) (hf : r.close digest receipt = .ok r') :
    step authority (.closeMint a digest receipt) l = (.ok (.mint r'), l.saveMint r') := by
  refine step_of_answer ?_
  rw [answer]
  refine recorded_eq_ok.mpr ⟨r', check_bind_eq_ok.mpr ⟨?_, onMint_eq_ok.mpr ⟨ho, r, hm, hf, rfl⟩⟩, rfl⟩
  simpa using hx

theorem closeMintRefused_step {a digest : String} {input : MintRefusal} {now : Nat} {r r' : MintRecord}
    (ho : opaqueId a = true) (hx : mintRefusal input = .ok ()) (hm : l.mintAt a = some r)
    (hf : r.closeRefused digest input now = .ok r') :
    step authority (.closeMintRefused a digest input now) l = (.ok (.mint r'), l.saveMint r') := by
  refine step_of_answer ?_
  rw [answer]
  exact recorded_eq_ok.mpr ⟨r', check_bind_eq_ok.mpr ⟨hx, onMint_eq_ok.mpr ⟨ho, r, hm, hf, rfl⟩⟩, rfl⟩

theorem Completes.changes (h : l.Wf) (hc : Completes c l) : ¬ClosedSame l (step authority c l).2 := by
  rintro ⟨-, hsame⟩
  rcases hc with ⟨r, digest, receipt, rfl, ho, hx, hm, hs, hr, hd, hob⟩ |
    ⟨r, digest, input, now, rfl, ho, hx, hm, hs, hr, hcl, hd, hob, hk⟩
  · have hq := ((h.mint r (lookup_mem hm).1).closed hs).1
    have hf : r.close digest receipt = .ok { r with state := .closed, receipt := some receipt } :=
      MintRecord.close_eq_ok.mpr ⟨⟨hd, hq, hob, fun x hx => by rw [hr] at hx; cases hx⟩, rfl⟩
    have he := hsame r.attempt r hm hs
    rw [closeMint_step ho hx hm hf] at he
    have hb := Option.some.inj ((h.mintAt_save hm (by rfl)).symm.trans he)
    have hrec : some receipt = r.receipt := congrArg MintRecord.receipt hb
    rw [hr] at hrec; cases hrec
  · have hq := ((h.mint r (lookup_mem hm).1).closed hs).1
    have hf : r.closeRefused digest input now =
        .ok { r with refusal := some (r.refusal.getD ⟨input, now⟩), state := .closed } :=
      MintRecord.closeRefused_eq_ok.mpr
        ⟨⟨hob, hcl, hq, hd, by rw [hs]; simp, hk, fun f hf => by rw [hr] at hf; cases hf⟩, rfl⟩
    have he := hsame r.attempt r hm hs
    rw [closeMintRefused_step ho hx hm hf] at he
    have hb := Option.some.inj ((h.mintAt_save hm (by rfl)).symm.trans he)
    have hrec : some (r.refusal.getD ⟨input, now⟩) = r.refusal := congrArg MintRecord.refusal hb
    rw [hr] at hrec; cases hrec

/-! ## Readings of the evidence -/

theorem evidence_closed {r : EffectRecord} {e : InitialEvidence} (h : r.evidence = .ok e) : r.state = .closed := by
  unfold EffectRecord.evidence at h
  split at h
  · assumption
  · cases h

theorem mintEvidence_closed {r : MintRecord} {purpose : String} {e : MintEvidence} (h : r.evidence purpose = .ok e) :
    r.state = .closed := by
  unfold MintRecord.evidence at h
  obtain ⟨-, h⟩ := check_bind_eq_ok.mp h
  split at h
  · assumption
  · cases h

/-- What was read of closed records is read again where they are the same. -/
theorem collectEvidence_same (h : ClosedSame l l') {seen : List String} {attempts : List (String × String)}
    {e : List InitialEvidence × List MintEvidence} (he : l.collectEvidence seen attempts = .ok e) :
    l'.collectEvidence seen attempts = .ok e := by
  induction attempts generalizing seen e with
  | nil => exact he
  | cons p rest ih =>
    obtain ⟨attempt, purpose⟩ := p
    rw [collectEvidence] at he ⊢
    obtain ⟨hd, he⟩ := check_bind_eq_ok.mp he
    refine check_bind_eq_ok.mpr ⟨hd, ?_⟩
    by_cases hp : purpose = "initial"
    · rw [if_pos hp] at he ⊢
      cases hr : l.effectAt attempt with
      | none => rw [hr] at he; cases he
      | some r =>
        rw [hr] at he
        obtain ⟨x, hx, he⟩ := bind_eq_ok.mp he
        obtain ⟨y, hy, he⟩ := bind_eq_ok.mp he
        rw [h.1 attempt r hr (evidence_closed hx)]
        exact bind_eq_ok.mpr ⟨x, hx, bind_eq_ok.mpr ⟨y, ih hy, he⟩⟩
    · rw [if_neg hp] at he ⊢
      cases hr : l.mintAt attempt with
      | none => rw [hr] at he; cases he
      | some r =>
        rw [hr] at he
        obtain ⟨x, hx, he⟩ := bind_eq_ok.mp he
        obtain ⟨y, hy, he⟩ := bind_eq_ok.mp he
        rw [h.2 attempt r hr (mintEvidence_closed hx)]
        exact bind_eq_ok.mpr ⟨x, hx, bind_eq_ok.mpr ⟨y, ih hy, he⟩⟩

theorem preparationEvidence_same (h : ClosedSame l l') {attempts : List (String × String)}
    {e : List InitialEvidence × List MintEvidence} (he : l.preparationEvidence attempts = .ok e) :
    l'.preparationEvidence attempts = .ok e := by
  unfold preparationEvidence at *
  obtain ⟨hd, he⟩ := check_bind_eq_ok.mp he
  obtain ⟨x, hx, he⟩ := bind_eq_ok.mp he
  exact check_bind_eq_ok.mpr ⟨hd, bind_eq_ok.mpr ⟨x, collectEvidence_same h hx, he⟩⟩

/-! ## Runs -/

/-- No call of the sequence completes a closed record. -/
def Steady (authority : String) (l : Ledger) : List Call → Prop
  | [] => True
  | c :: cs => ¬Completes c l ∧ Steady authority (step authority c l).2 cs

theorem run_closedSame (h : l.Wf) {cs : List Call} (hs : Steady authority l cs) :
    ClosedSame l (Calls.run (step authority) l cs) := by
  induction cs generalizing l with
  | nil => exact .refl l
  | cons c cs ih => exact (step_closedSame h hs.1).trans (ih (step_wf authority c l h) hs.2)

/-- A call leaves every closed record as it was exactly when it completes none, and a sequence of such calls leaves
every closed record and every reading of the evidence as they were. -/
theorem closed_immutable (authority : String) (start : Option State) (cs : List Call) :
    (∀ c, ClosedSame (Calls.run (step authority) (fresh start) cs)
        (step authority c (Calls.run (step authority) (fresh start) cs)).2 ↔
      ¬Completes c (Calls.run (step authority) (fresh start) cs)) ∧
    ∀ ds, Steady authority (Calls.run (step authority) (fresh start) cs) ds →
      ClosedSame (Calls.run (step authority) (fresh start) cs) (Calls.run (step authority) (fresh start) (cs ++ ds)) ∧
      ∀ attempts e, (Calls.run (step authority) (fresh start) cs).preparationEvidence attempts = .ok e →
        (Calls.run (step authority) (fresh start) (cs ++ ds)).preparationEvidence attempts = .ok e := by
  have hw := run_wf authority start cs
  constructor
  · intro c
    exact ⟨fun hs hc => hc.changes hw hs, step_closedSame hw⟩
  · intro ds hs
    rw [Calls.run_append]
    have hsame := run_closedSame hw hs
    exact ⟨hsame, fun _ _ => preparationEvidence_same hsame⟩

end Ledger

/-! ## A closed record that changes -/

namespace Sample

def letters (n : Nat) (c : Char) : String := String.ofList (List.replicate n c)

def repository : String := String.ofList (['w', 'k', '-'] ++ List.replicate 32 'a' ++ ['-', 'c', 'o', 'd', 'e'])

def checkpoint : Checkpoint := { authority := letters 4 'w', epoch := letters 64 'e', sequence := 0, tip := letters 64 'a' }

def state : State := { checkpoint, pending := none, last := none, releaseFloor := 1, frozen := false }

def plan : InitialPlan :=
  { attemptId := letters 43 'i', digest := letters 64 'd', nameSpace := letters 4 'n', name := repository, role := .task
    deadline := 1000, checkpoint, artifactsAccount := none }

def closure : Closure := { repoId := letters 4 'r', tokenId := letters 4 't', expiresAt := none, receipt := letters 64 'c' }

def mintPlan : MintPlan :=
  { attemptId := letters 43 'm', digest := letters 64 'd', nameSpace := letters 4 'n', name := repository, role := .task
    deadline := 1000, artifactsAccount := none, purpose := .upload, scope := .write, repoId := letters 4 'r'
    initialAttemptId := letters 43 'i', keyVersion := 1, keyFingerprint := letters 64 'f', checkpoint, expiresAt := 300 }

def observation : MintObservation := { repoId := letters 4 'r', tokenId := letters 4 't', scope := .write, expiresAt := 300 }

def cleanup : MintCleanup := { toMintObservation := observation, method := .revokedInventory, receipt := letters 64 'c' }

def refusal : MintRefusal := { toMintObservation := observation, keyVersion := 1, receipt := letters 64 'c' }

theorem hex_letters {c : Char} (h : lowerHex c = true) : hex (letters 64 c) = true := by
  simp [hex, letters, hexOf, h]

theorem opaqueId_letters {c : Char} (h : c.isAlphanum = true) : opaqueId (letters 43 c) = true := by
  simp [opaqueId, letters, h]

theorem resource_letters {c : Char} (h : c.isAlphanum = true) : resource (letters 4 c) = true := by
  simp [resource, letters, h]

theorem repositoryName_repository : repositoryName repository .task = true := by
  unfold repositoryName repository
  rw [String.toList_ofList]
  decide

theorem letters_ne {n : Nat} {c d : Char} (h : c ≠ d) : letters (n + 1) c ≠ letters (n + 1) d := by
  intro e
  have := congrArg String.toList e
  simp [letters, List.replicate_succ] at this
  exact h this.1

theorem checkpoint_valid : checkpoint.valid = true := by
  simp [Checkpoint.valid, checkpoint, resource_letters, hex_letters, integer, lowerHex]


theorem namespaceName_letters {c : Char} (h : c.isLower = true) : namespaceName (letters 4 c) = true := by
  simp [namespaceName, letters, h]

theorem plan_valid : initialPlan plan = .ok () := by
  simp [initialPlan, InitialPlan.valid, plan, opaqueId_letters, hex_letters, checkpoint_valid, repositoryName_repository,
    integer, maxSafeInteger, lowerHex, namespaceName_letters]

theorem mintPlan_valid : Mikaki.WorkCheckpoint.mintPlan mintPlan = .ok () := by
  have hb : initialPlan mintPlan.base = .ok () := by
    simp [initialPlan, InitialPlan.valid, MintPlan.base, mintPlan, opaqueId_letters, hex_letters, checkpoint_valid,
      repositoryName_repository, integer, maxSafeInteger, lowerHex, namespaceName_letters]
  unfold Mikaki.WorkCheckpoint.mintPlan
  rw [hb]
  simp [mintPlan, Purpose.scope, opaqueId_letters, resource_letters, hex_letters, integer, maxSafeInteger, lowerHex, letters_ne]

theorem observation_valid : mintObservation observation = .ok () := by
  simp [mintObservation, observation, resource_letters, integer, maxSafeInteger]

/-- The effect record once its repository is observed, and once it is closed. -/
def observedEffect : EffectRecord := { EffectRecord.fresh plan with repoId := some (letters 4 'r') }

def closedEffect : EffectRecord := { observedEffect with closure := some closure, state := .closed }

/-- The mint record as each call leaves it, until its bearer is refused. -/
def observedMint : MintRecord := { Ledger.minted mintPlan with observation := some observation }

def cleaningMint : MintRecord := { observedMint with revokeAcknowledged := false, cleanupRequested := true, state := .outcomeUnknown }

def cleanedMint : MintRecord := { cleaningMint with cleanup := some ⟨cleanup, 200⟩ }

def refusedMint : MintRecord := { cleanedMint with refusal := some ⟨refusal, 200⟩, state := .closed }

open Ledger

variable {m m' : MintRecord}

theorem saveMint_one (hp : m'.plan = m.plan) :
    saveMint ⟨some state, [closedEffect], [m]⟩ m' = ⟨some state, [closedEffect], [m']⟩ := by
  simp [saveMint, MintRecord.attempt, hp]

theorem saveEffect_one {r r' : EffectRecord} (hp : r'.plan = r.plan) :
    saveEffect ⟨some state, [r], []⟩ r' = ⟨some state, [r'], []⟩ := by
  simp [saveEffect, put, EffectRecord.attempt, hp]

theorem mintAt_one (hp : m.plan = mintPlan) : mintAt ⟨some state, [closedEffect], [m]⟩ (letters 43 'm') = some m := by
  simp [mintAt, lookup, MintRecord.attempt, hp, mintPlan]

theorem claimEffect_ok : answer (letters 4 'w') (.claimEffect plan 1 100) (.fresh (some state)) =
    .ok (.claimedEffect true (.fresh plan), ⟨some state, [.fresh plan], []⟩) := by
  rw [answer]
  refine claimed_eq_ok.mpr ⟨true, .fresh plan, ?_, rfl⟩
  unfold claimEffect
  rw [plan_valid]
  simp [Ledger.fresh, admitting, current, State.current, state, integer, maxSafeInteger, plan, checkpoint, effect,
    opaqueId_letters, lookup, entries, saveEffect, put, EffectRecord.fresh]

theorem observeEffect_ok : answer (letters 4 'w') (.observeEffect (letters 43 'i') (letters 64 'd') (letters 4 'r'))
    ⟨some state, [.fresh plan], []⟩ = .ok (.done, ⟨some state, [observedEffect], []⟩) := by
  rw [answer]
  refine recorded_eq_ok.mpr ⟨observedEffect, ?_, rfl⟩
  refine check_bind_eq_ok.mpr ⟨?_, onEffect_eq_ok.mpr ⟨opaqueId_letters rfl, .fresh plan, ?_, rfl, (saveEffect_one rfl).symm⟩⟩
  · simp [hex_letters, resource_letters, lowerHex]
  · simp [effectAt, lookup, EffectRecord.attempt, EffectRecord.fresh, plan]

theorem closeEffect_ok : answer (letters 4 'w') (.closeEffect (letters 43 'i') (letters 64 'd') closure)
    ⟨some state, [observedEffect], []⟩ = .ok (.effect closedEffect, ⟨some state, [closedEffect], []⟩) := by
  rw [answer]
  refine recorded_eq_ok.mpr ⟨closedEffect, ?_, rfl⟩
  refine check_bind_eq_ok.mpr ⟨?_, check_bind_eq_ok.mpr ⟨?_, onEffect_eq_ok.mpr
    ⟨opaqueId_letters rfl, observedEffect, ?_, ?_, (saveEffect_one rfl).symm⟩⟩⟩
  · simp [Mikaki.WorkCheckpoint.closure, closure, hex_letters, resource_letters, lowerHex]
  · simp [hex_letters, lowerHex]
  · simp [effectAt, lookup, EffectRecord.attempt, observedEffect, EffectRecord.fresh, plan]
  · simp [EffectRecord.close, observedEffect, EffectRecord.fresh, plan, closure, closedEffect]

theorem claimMint_ok : answer (letters 4 'w') (.claimMint mintPlan 1 100) ⟨some state, [closedEffect], []⟩ =
    .ok (.claimedMint true (minted mintPlan), ⟨some state, [closedEffect], [minted mintPlan]⟩) := by
  rw [answer]
  refine claimed_eq_ok.mpr ⟨true, minted mintPlan, ?_, rfl⟩
  unfold claimMint
  rw [mintPlan_valid]
  simp [admitting, current, State.current, state, integer, maxSafeInteger, mintPlan, checkpoint, effect, mint,
    opaqueId_letters, lookup, entries, insertMint, EffectRecord.attempt, closedEffect, observedEffect, EffectRecord.fresh,
    plan, closure, initialClosed]

theorem observeMint_ok : answer (letters 4 'w') (.observeMint (letters 43 'm') (letters 64 'd') observation)
    ⟨some state, [closedEffect], [minted mintPlan]⟩ = .ok (.done, ⟨some state, [closedEffect], [observedMint]⟩) := by
  rw [answer]
  refine recorded_eq_ok.mpr ⟨observedMint, ?_, rfl⟩
  refine check_bind_eq_ok.mpr ⟨observation_valid, onMint_eq_ok.mpr
    ⟨opaqueId_letters rfl, minted mintPlan, mintAt_one rfl, ?_, (saveMint_one rfl).symm⟩⟩
  simp [MintRecord.observe, minted, mintPlan, observation, observedMint]

theorem beginMintCleanup_ok : answer (letters 4 'w') (.beginMintCleanup (letters 43 'm') (letters 64 'd') false)
    ⟨some state, [closedEffect], [observedMint]⟩ = .ok (.mint cleaningMint, ⟨some state, [closedEffect], [cleaningMint]⟩) := by
  rw [answer]
  refine recorded_eq_ok.mpr ⟨cleaningMint, ?_, rfl⟩
  refine onMint_eq_ok.mpr ⟨opaqueId_letters rfl, observedMint, mintAt_one rfl, ?_, (saveMint_one rfl).symm⟩
  simp [MintRecord.beginCleanup, observedMint, minted, mintPlan, cleaningMint]

theorem recordMintCleanup_ok : answer (letters 4 'w') (.recordMintCleanup (letters 43 'm') (letters 64 'd') cleanup 200)
    ⟨some state, [closedEffect], [cleaningMint]⟩ = .ok (.mint cleanedMint, ⟨some state, [closedEffect], [cleanedMint]⟩) := by
  rw [answer]
  refine recorded_eq_ok.mpr ⟨cleanedMint, ?_, rfl⟩
  refine check_bind_eq_ok.mpr ⟨?_, onMint_eq_ok.mpr
    ⟨opaqueId_letters rfl, cleaningMint, mintAt_one rfl, ?_, (saveMint_one rfl).symm⟩⟩
  · unfold mintCleanup
    rw [show cleanup.toMintObservation = observation from rfl, observation_valid]
    simp [cleanup, hex_letters, lowerHex]
  · simp [MintRecord.recordCleanup, cleaningMint, observedMint, minted, mintPlan, cleanup, cleanedMint]

theorem closeMintRefused_ok : answer (letters 4 'w') (.closeMintRefused (letters 43 'm') (letters 64 'd') refusal 200)
    ⟨some state, [closedEffect], [cleanedMint]⟩ = .ok (.mint refusedMint, ⟨some state, [closedEffect], [refusedMint]⟩) := by
  rw [answer]
  refine recorded_eq_ok.mpr ⟨refusedMint, ?_, rfl⟩
  refine check_bind_eq_ok.mpr ⟨?_, onMint_eq_ok.mpr
    ⟨opaqueId_letters rfl, cleanedMint, mintAt_one rfl, ?_, (saveMint_one rfl).symm⟩⟩
  · unfold mintRefusal
    rw [show refusal.toMintObservation = observation from rfl, observation_valid]
    simp [refusal, hex_letters, lowerHex, integer, maxSafeInteger]
  · refine MintRecord.closeRefused_eq_ok.mpr ⟨⟨rfl, ?_, rfl, rfl, ?_, rfl, ?_⟩, rfl⟩
    · simp [cleanedMint]
    · simp [cleanedMint, cleaningMint]
    · rintro f ⟨⟩

/-- A mint that is observed, cleaned up and closed by the refusal of its bearer. -/
def calls : List Call :=
  [ .claimEffect plan 1 100,
    .observeEffect (letters 43 'i') (letters 64 'd') (letters 4 'r'),
    .closeEffect (letters 43 'i') (letters 64 'd') closure,
    .claimMint mintPlan 1 100,
    .observeMint (letters 43 'm') (letters 64 'd') observation,
    .beginMintCleanup (letters 43 'm') (letters 64 'd') false,
    .recordMintCleanup (letters 43 'm') (letters 64 'd') cleanup 200,
    .closeMintRefused (letters 43 'm') (letters 64 'd') refusal 200 ]

theorem run_calls :
    Calls.run (step (letters 4 'w')) (.fresh (some state)) calls = ⟨some state, [closedEffect], [refusedMint]⟩ := by
  rw [calls, run_answer claimEffect_ok, run_answer observeEffect_ok, run_answer closeEffect_ok, run_answer claimMint_ok,
    run_answer observeMint_ok, run_answer beginMintCleanup_ok, run_answer recordMintCleanup_ok,
    run_answer closeMintRefused_ok]
  rfl

end Sample

namespace Ledger

open Sample in
/-- The receipt that arrives after the refusal is written into the closed record. -/
theorem refused_takes_receipt :
    ¬ClosedSame (Calls.run (step (letters 4 'w')) (fresh (some Sample.state)) calls)
      (step (letters 4 'w') (.closeMint (letters 43 'm') (letters 64 'd') (letters 64 'c'))
        (Calls.run (step (letters 4 'w')) (fresh (some Sample.state)) calls)).2 := by
  have hm : mintAt ⟨some Sample.state, [closedEffect], [refusedMint]⟩ (letters 43 'm') = some refusedMint := mintAt_one rfl
  refine Completes.changes (run_wf _ _ _) ?_
  rw [run_calls]
  refine .inl ⟨refusedMint, _, _, rfl, opaqueId_letters rfl, hex_letters rfl, hm, rfl, rfl, rfl, observation, rfl, rfl, ?_⟩
  exact Nat.le_refl 300

end Ledger

end Mikaki.WorkCheckpoint
