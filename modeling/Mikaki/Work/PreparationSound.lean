import Mikaki.Lib.Calls
import Mikaki.Work.DisclosureAgreement
import Mikaki.Work.Preparation

/-!
# The states of a source preparation

One preparation under any sequence of calls, stored and restored between any
two of them. `Moves` is the abstract machine; the history of a run records
whether a dispatch has succeeded, whether cleanup has been required, and the
evidence of the last verification.
-/

namespace Mikaki

open Checks

/-! ## The abstract machine -/

/-- One step of the state. -/
inductive Moves : PreparationState → PreparationState → Prop
  | dispatch : Moves .reserved .dispatched
  | verify : Moves .dispatched .verified
  | abandon : Moves .dispatched .cleanupPending
  | retire : Moves .verified .cleanupPending
  | clean : Moves .cleanupPending .cleaned
  | release : Moves .reserved .cleaned

/-- The states that follow a required cleanup. -/
def PreparationState.ending : PreparationState → Bool
  | .cleanupPending | .cleaned => true
  | _ => false

theorem Moves.ending {a b : PreparationState} (h : Moves a b) (ha : a.ending = true) : b.ending = true := by
  cases h <;> first | rfl | cases ha

theorem Moves.not_cleaned {a b : PreparationState} (h : Moves a b) : a ≠ .cleaned := by cases h <;> decide

/-! ## What is restored is what was stored -/

theorem Binding.read_inv {b c : Binding} (h : read b.toJson = some c) : c = b := by
  obtain ⟨f, hm, h⟩ := Records.fields_inv h rfl rfl (by decide)
  simp only [Records.FieldsOf, List.forall_mem_cons] at hm
  simp only [hm, Records.some_bind, Records.bind_eq_some, Option.pure_def, Option.some.injEq, Records.id_text,
    Records.digest_toHex, Records.strings_arr] at h
  obtain ⟨e, he, p, hp, x, hx, r, hr, rfl⟩ := h
  rw [Records.u64_inv he, Records.u64_inv hp, Records.u64_inv hx, Records.u64_inv hr]

theorem Plan.read_inv {p q : Plan} (h : read p.toJson = some q) : q = p := by
  obtain ⟨f, hm, h⟩ := Records.fields_inv h rfl rfl (by decide)
  simp only [Records.FieldsOf, List.forall_mem_cons] at hm
  simp only [hm, Records.some_bind, Records.bind_eq_some, Option.pure_def, Option.some.injEq, Records.id_text,
    Records.string_str] at h
  obtain ⟨b, hb, rfl⟩ := h
  rw [Binding.read_inv hb]

namespace Preparation

theorem read_inv {p : Preparation} {r : Plan × Digest} (h : read p.toJson = some r) : r = (p.plan, p.digest) := by
  obtain ⟨f, hm, h⟩ := Records.fields_inv h rfl rfl (by decide)
  simp only [Records.FieldsOf, List.forall_mem_cons] at hm
  simp only [hm, Records.some_bind, Records.bind_eq_some, Option.pure_def, Option.some.injEq, Records.digest_toHex] at h
  obtain ⟨q, hq, rfl⟩ := h
  rw [Plan.read_inv hq]

variable [Hashes]

theorem restore_inv {p q : Preparation} {text : String} (he : p.authorityRecord = .ok text)
    (hr : restoreAuthorityRecord text p.state = .ok q) : q = p := by
  simp only [restoreAuthorityRecord, bind_eq_ok, pure_eq_ok] at hr
  obtain ⟨⟨plan, digest⟩, hd, _, -, _, -, rfl⟩ := hr
  cases read_inv (Records.decode_encode_inv he hd)
  rfl

/-- A record is written and restored with the current state. -/
def persist (self : Preparation) : Except Denied Unit × Preparation :=
  match self.authorityRecord >>= fun text => restoreAuthorityRecord text self.state with
  | .error e => (.error e, self)
  | .ok restored => (.ok (), restored)

theorem persist_cases (p : Preparation) : p.persist = (.ok (), p) ∨ ∃ e, p.persist = (.error e, p) := by
  unfold persist
  split
  · exact .inr ⟨_, rfl⟩
  · rename_i q h
    obtain ⟨text, he, hr⟩ := bind_eq_ok.mp h
    rw [restore_inv he hr]
    exact .inl rfl

/-! ## What each call does -/

section
omit [Hashes]

theorem dispatch_cases (p : Preparation) (e : Environment) :
    (p.state = .reserved ∧ p.dispatch e = (.ok (), { p with state := .dispatched })) ∨
    ∃ d, p.dispatch e = (.error d, p) := by
  unfold dispatch
  by_cases hs : p.state = .reserved
  · rw [if_neg (not_not_intro hs)]
    cases e.checkOwner p.plan.binding.owner p.plan.binding.ownerEpoch with
    | error d => exact .inr ⟨d, rfl⟩
    | ok u =>
      by_cases hp : e.policyRevision = p.plan.binding.policyRevision
      · by_cases hn : e.now ≥ p.plan.binding.expiresAt
        · exact .inr ⟨.expired, by simp [hp, hn]⟩
        · exact .inl ⟨hs, by simp [hp, hn]⟩
      · exact .inr ⟨.stalePolicy, by simp [hp]⟩
  · exact .inr ⟨_, if_pos hs⟩

theorem verify_cases (p : Preparation) (v : VerifiedPreparation) :
    (v.preparation = p.digest ∧ (p.state = .dispatched ∨ p.state = .verified) ∧
      p.verify v = (.ok (), { p with state := .verified })) ∨ ∃ d, p.verify v = (.error d, p) := by
  unfold verify
  by_cases hv : v.preparation = p.digest
  · rw [if_neg (not_not_intro hv)]
    cases hs : p.state with
    | dispatched => exact .inl ⟨hv, .inl rfl, rfl⟩
    | verified => exact .inl ⟨hv, .inr rfl, rfl⟩
    | _ => exact .inr ⟨_, rfl⟩
  · exact .inr ⟨_, if_pos hv⟩

theorem requireCleanup_cases (p : Preparation) :
    p.requireCleanup.plan = p.plan ∧ p.requireCleanup.digest = p.digest ∧ p.requireCleanup.state.ending = true ∧
      (p.requireCleanup.state = p.state ∨ Moves p.state p.requireCleanup.state) := by
  unfold requireCleanup
  refine ⟨rfl, rfl, ?_⟩
  cases p.state with
  | reserved => exact ⟨rfl, .inr .release⟩
  | dispatched => exact ⟨rfl, .inr .abandon⟩
  | verified => exact ⟨rfl, .inr .retire⟩
  | cleanupPending => exact ⟨rfl, .inl rfl⟩
  | cleaned => exact ⟨rfl, .inl rfl⟩

theorem confirmCleaned_cases (p : Preparation) :
    ((p.state = .cleanupPending ∨ p.state = .cleaned) ∧ p.confirmCleaned = (.ok (), { p with state := .cleaned })) ∨
    ∃ d, p.confirmCleaned = (.error d, p) := by
  unfold confirmCleaned
  cases hs : p.state with
  | cleanupPending => exact .inl ⟨.inl rfl, rfl⟩
  | cleaned => exact .inl ⟨.inr rfl, rfl⟩
  | _ => exact .inr ⟨_, rfl⟩

theorem taskAuthority_available {p : Preparation} {v : VerifiedPreparation} {d : ResolvedDisclosure} {revision : Nat}
    {current : Bool} {t : TaskRepository} (h : p.taskAuthority v d revision current = .ok t) (ha : t.available = true) :
    p.state = .verified := by
  simp only [taskAuthority, bind_eq_ok, pure_eq_ok] at h
  obtain ⟨_, -, _, -, _, -, _, -, rfl⟩ := h
  simp only [Bool.and_eq_true, beq_iff_eq] at ha
  exact ha.1.1

end

/-! ## Runs -/

/-- A preparation and its history. -/
structure History where
  preparation : Preparation
  dispatched : Bool
  evidence : Option VerifiedPreparation
  cleanup : Bool

inductive Call where
  | dispatch (environment : Environment)
  | verify (evidence : VerifiedPreparation)
  | requireCleanup
  | confirmCleaned
  | persist

/-- The preparation's own reply and value; the history is what the reply says. -/
def step (c : Call) (s : History) : Except Denied Unit × History :=
  match c with
  | .dispatch environment =>
    match s.preparation.dispatch environment with
    | (.error e, p) => (.error e, { s with preparation := p })
    | (.ok (), p) => (.ok (), { s with preparation := p, dispatched := true })
  | .verify evidence =>
    match s.preparation.verify evidence with
    | (.error e, p) => (.error e, { s with preparation := p })
    | (.ok (), p) => (.ok (), { s with preparation := p, evidence := some evidence })
  | .requireCleanup => (.ok (), { s with preparation := s.preparation.requireCleanup, cleanup := true })
  | .confirmCleaned => (s.preparation.confirmCleaned.1, { s with preparation := s.preparation.confirmCleaned.2 })
  | .persist => (s.preparation.persist.1, { s with preparation := s.preparation.persist.2 })

abbrev run : History → List Call → History := Calls.run step

def start (p : Preparation) : History := { preparation := p, dispatched := false, evidence := none, cleanup := false }

/-- What a state says about the history behind it. -/
structure Told (s : History) : Prop where
  bound : s.preparation.digest = s.preparation.plan.digest
  dispatched : s.preparation.state = .dispatched ∨ s.preparation.state = .verified → s.dispatched = true
  verified : s.preparation.state = .verified → ∃ v, s.evidence = some v ∧ v.preparation = s.preparation.digest
  cleanup : s.cleanup = true → s.preparation.state.ending = true

/-- One call keeps the plan and its digest, and moves the state by one step of the machine at most. -/
structure Follows (s t : History) : Prop where
  plan : t.preparation.plan = s.preparation.plan ∧ t.preparation.digest = s.preparation.digest
  moves : t.preparation.state = s.preparation.state ∨ Moves s.preparation.state t.preparation.state

theorem step_error {c : Call} {s : History} {e : Denied} (h : (step c s).1 = .error e) : (step c s).2 = s := by
  cases c with
  | dispatch environment =>
    obtain ⟨-, hd⟩ | ⟨d, hd⟩ := s.preparation.dispatch_cases environment <;> simp only [step, hd] at h ⊢
    cases h
  | verify evidence =>
    obtain ⟨-, -, hv⟩ | ⟨d, hv⟩ := s.preparation.verify_cases evidence <;> simp only [step, hv] at h ⊢
    cases h
  | requireCleanup => cases h
  | confirmCleaned =>
    obtain ⟨-, hc⟩ | ⟨d, hc⟩ := s.preparation.confirmCleaned_cases <;> simp only [step, hc] at h ⊢
    cases h
  | persist =>
    obtain hp | ⟨d, hp⟩ := s.preparation.persist_cases <;> simp only [step, hp] at h ⊢

theorem step_sound (c : Call) {s : History} (hs : Told s) : Told (step c s).2 ∧ Follows s (step c s).2 := by
  have hsame : Follows s s := ⟨⟨rfl, rfl⟩, .inl rfl⟩
  cases c with
  | dispatch environment =>
    obtain ⟨hr, hd⟩ | ⟨d, hd⟩ := s.preparation.dispatch_cases environment <;> simp only [step, hd]
    · refine ⟨⟨hs.bound, fun _ => rfl, fun h => (by cases h), fun h => ?_⟩, ⟨rfl, rfl⟩, .inr (hr ▸ .dispatch)⟩
      have := hs.cleanup h
      rw [hr] at this; cases this
    · exact ⟨hs, hsame⟩
  | verify evidence =>
    obtain ⟨hv, hst, he⟩ | ⟨d, he⟩ := s.preparation.verify_cases evidence <;> simp only [step, he]
    · refine ⟨⟨hs.bound, fun _ => hs.dispatched hst, fun _ => ⟨evidence, rfl, hv⟩, fun h => ?_⟩, ⟨rfl, rfl⟩, ?_⟩
      · have := hs.cleanup h
        rcases hst with hst | hst <;> (rw [hst] at this; cases this)
      · rcases hst with hst | hst
        · exact .inr (hst ▸ .verify)
        · exact .inl hst.symm
    · exact ⟨hs, hsame⟩
  | requireCleanup =>
    obtain ⟨hp, hd, he, hm⟩ := s.preparation.requireCleanup_cases
    refine ⟨⟨?_, fun h => ?_, fun h => ?_, fun _ => he⟩, ⟨hp, hd⟩, hm⟩
    · show s.preparation.requireCleanup.digest = s.preparation.requireCleanup.plan.digest
      rw [hp, hd, hs.bound]
    · change s.preparation.requireCleanup.state = _ ∨ s.preparation.requireCleanup.state = _ at h
      rcases h with h | h <;> (rw [h] at he; cases he)
    · change s.preparation.requireCleanup.state = _ at h
      rw [h] at he; cases he
  | confirmCleaned =>
    obtain ⟨hst, hc⟩ | ⟨d, hc⟩ := s.preparation.confirmCleaned_cases <;> simp only [step, hc]
    · refine ⟨⟨hs.bound, fun h => (by rcases h with h | h <;> cases h), fun h => (by cases h), fun _ => rfl⟩, ⟨rfl, rfl⟩, ?_⟩
      rcases hst with hst | hst
      · exact .inr (hst ▸ .clean)
      · exact .inl hst.symm
    · exact ⟨hs, hsame⟩
  | persist =>
    obtain hp | ⟨d, hp⟩ := s.preparation.persist_cases <;> simp only [step, hp] <;> exact ⟨hs, hsame⟩

/-- Any number of steps of the machine. -/
def Leads (s t : History) : Prop :=
  (t.preparation.plan = s.preparation.plan ∧ t.preparation.digest = s.preparation.digest) ∧
    Relation.ReflTransGen Moves s.preparation.state t.preparation.state

omit [Hashes] in
theorem Follows.leads {s t : History} (h : Follows s t) : Leads s t :=
  ⟨h.plan, h.moves.elim (fun e => e ▸ .refl) .single⟩

omit [Hashes] in
theorem Leads.trans {s t u : History} (h₁ : Leads s t) (h₂ : Leads t u) : Leads s u :=
  ⟨⟨h₂.1.1.trans h₁.1.1, h₂.1.2.trans h₁.1.2⟩, h₁.2.trans h₂.2⟩

omit [Hashes] in
theorem Leads.refl (s : History) : Leads s s := ⟨⟨rfl, rfl⟩, .refl⟩

theorem run_leads {s : History} (hs : Told s) (cs : List Call) : Leads s (run s cs) := by
  refine Calls.run_rel (I := Told) (R := Leads) Leads.refl Leads.trans (fun c _ h => ?_) (fun c _ h => ?_) hs cs
  · exact (step_sound c h).1
  · exact (step_sound c h).2.leads

theorem run_told {s : History} (hs : Told s) (cs : List Call) : Told (run s cs) :=
  Calls.run_invariant (P := Told) (fun c _ h => (step_sound c h).1) hs cs

theorem cleanup_stays {s : History} (h : s.cleanup = true) (cs : List Call) : (run s cs).cleanup = true := by
  refine Calls.run_invariant (P := fun s : History => s.cleanup = true) (fun c s h => ?_) h cs
  cases c with
  | dispatch environment => rw [step]; split <;> exact h
  | verify evidence => rw [step]; split <;> exact h
  | requireCleanup => rfl
  | confirmCleaned => rw [step]; exact h
  | persist => rw [step]; exact h

omit [Hashes] in
theorem ext_state {p q : Preparation} (hp : p.plan = q.plan) (hd : p.digest = q.digest) (hs : p.state = q.state) :
    p = q := by
  cases p; cases q; cases hp; cases hd; cases hs; rfl

theorem fromRegisteredDisclosure_ok {d : ResolvedDisclosure} {id task taskNamespace snapshotNamespace : String}
    {p : Preparation} (h : fromRegisteredDisclosure d id task taskNamespace snapshotNamespace = .ok p) :
    p.plan.validate = .ok () ∧ p.digest = p.plan.digest ∧ p.state = .reserved := by
  simp only [fromRegisteredDisclosure, bind_eq_ok, exists_unit, pure_eq_ok] at h
  obtain ⟨_, -, _, -, _, -, hv, rfl⟩ := h
  exact ⟨hv, rfl, rfl⟩

theorem told_start {p : Preparation} (hd : p.digest = p.plan.digest) (hs : p.state = .reserved) : Told (start p) :=
  ⟨hd, fun h => (by simp [start, hs] at h), fun h => (by simp [start, hs] at h), fun h => (by cases h)⟩

/-- The states of a preparation over every sequence of calls `cs` and every call `c` after it. -/
theorem preparation_machine {d : ResolvedDisclosure} {id task taskNamespace snapshotNamespace : String} {p : Preparation}
    (h : fromRegisteredDisclosure d id task taskNamespace snapshotNamespace = .ok p) (cs ds : List Call) (c : Call) :
    -- one call moves along the machine, and a call that fails changes nothing
    ((step c (run (start p) cs)).2.preparation.state = (run (start p) cs).preparation.state ∨
      Moves (run (start p) cs).preparation.state (step c (run (start p) cs)).2.preparation.state) ∧
    (∀ e, (step c (run (start p) cs)).1 = .error e → (step c (run (start p) cs)).2 = run (start p) cs) ∧
    -- the plan is fixed, and a verified preparation has been dispatched and has evidence of its own plan
    (run (start p) cs).preparation.plan = p.plan ∧
    ((run (start p) cs).preparation.state = .verified → (run (start p) cs).dispatched = true ∧
      ∃ v, (run (start p) cs).evidence = some v ∧ v.preparation = p.plan.digest) ∧
    -- no way back from a required cleanup, and none out of `cleaned`
    ((run (start p) (cs ++ .requireCleanup :: ds)).preparation.state = .cleanupPending ∨
      (run (start p) (cs ++ .requireCleanup :: ds)).preparation.state = .cleaned) ∧
    (∀ e, ((run (start p) (cs ++ .requireCleanup :: ds)).preparation.dispatch e).1 ≠ .ok ()) ∧
    ((run (start p) cs).preparation.state = .cleaned →
      (run (start p) (cs ++ ds)).preparation = (run (start p) cs).preparation) ∧
    -- a task is available under a verified preparation only
    (∀ v d r b t, (run (start p) cs).preparation.taskAuthority v d r b = .ok t → t.available = true →
      (run (start p) cs).preparation.state = .verified) := by
  obtain ⟨-, hd, hs⟩ := fromRegisteredDisclosure_ok h
  have ht := told_start hd hs
  have htold := run_told ht cs
  have hlead := run_leads ht cs
  have hend : (run (start p) (cs ++ .requireCleanup :: ds)).preparation.state.ending = true := by
    have hc : (run (start p) (cs ++ .requireCleanup :: ds)).cleanup = true := by
      rw [run, Calls.run_append]; exact cleanup_stays rfl ds
    exact (run_told ht _).cleanup hc
  refine ⟨(step_sound c htold).2.moves, fun e => step_error, hlead.1.1, fun hv => ?_, ?_, fun e he => ?_, fun hc => ?_,
    fun v d r b t => taskAuthority_available⟩
  · obtain ⟨v, hev, hb⟩ := htold.verified hv
    exact ⟨htold.dispatched (.inr hv), v, hev, by rw [hb, htold.bound, hlead.1.1]; rfl⟩
  · generalize (run (start p) (cs ++ .requireCleanup :: ds)).preparation.state = s at hend
    cases s with
    | cleanupPending => exact .inl rfl
    | cleaned => exact .inr rfl
    | _ => cases hend
  · obtain ⟨hr, -⟩ | ⟨d, hx⟩ :=
      (run (start p) (cs ++ .requireCleanup :: ds)).preparation.dispatch_cases e
    · rw [hr] at hend; cases hend
    · rw [hx] at he; cases he
  · have hl : Leads (run (start p) cs) (run (start p) (cs ++ ds)) := by
      rw [run, Calls.run_append]; exact run_leads htold ds
    have hst : (run (start p) (cs ++ ds)).preparation.state = .cleaned := by
      obtain ⟨-, hm⟩ := hl
      rw [hc] at hm
      exact hm.cases_head.elim Eq.symm fun ⟨_, h, _⟩ => absurd rfl h.not_cleaned
    obtain ⟨⟨hplan, hdigest⟩, -⟩ := hl
    exact ext_state hplan hdigest (hst.trans hc.symm)

end Preparation

/-! ## The sample disclosure, prepared -/

namespace Sample

def plan : Plan :=
  { operationId := ⟨"preparation-1", by decide⟩
    binding :=
      { owner, ownerEpoch := 3, policyRevision := 7, policyProjection := hash 7, disclosure := disclosure.digest
        expiresAt := 4000, reservedBytes := 529, sourceIds := ["code-1", "context-1"]
        snapshotRepository := snapshotId }
    taskRepository := taskId, taskNamespace := "tasks", snapshotNamespace := "snapshots"
    taskName := (Mikaki.names ⟨"preparation-1", by decide⟩).1, snapshotName := (Mikaki.names ⟨"preparation-1", by decide⟩).2 }

def preparation : Preparation := { plan, digest := plan.digest, state := .reserved }

theorem plan_validated : plan.validate = .ok () := by
  simp only [Plan.validate, check_bind_eq_ok, denyIf_eq_ok, not_or]
  exact ⟨by decide +kernel, by decide +kernel, by decide, by decide, by decide, by decide, by decide, by decide,
    by decide +kernel, by decide, by decide, by decide, by decide, not_not_intro rfl⟩

theorem disclosure_prepared :
    Preparation.fromRegisteredDisclosure disclosure "preparation-1" "task-1" "tasks" "snapshots" = .ok preparation := by
  have hb : disclosure.preparationBinding = .ok plan.binding := rfl
  simp only [Preparation.fromRegisteredDisclosure, bind_eq_ok, exists_unit, pure_eq_ok, hb]
  exact ⟨⟨"preparation-1", by decide⟩, rfl, _, rfl, taskId, rfl, plan_validated, rfl⟩

/-- The evidence the sample preparation is verified with. -/
def verified : VerifiedPreparation :=
  { preparation := plan.digest, taskRepoId := ⟨"remote-1", by decide⟩, snapshotRepoId := ⟨"remote-2", by decide⟩
    payloadReceipt := hash 1, credentialReceipt := hash 2, distinct := by decide }

end Sample

namespace Preparation

/-- The sample preparation, dispatched and verified, and then retired with a late retry of the verification. -/
theorem preparation_machine_sample :
    (run (start Sample.preparation) [.dispatch Sample.environment, .verify Sample.verified]).preparation.plan =
      Sample.plan ∧
    ((run (start Sample.preparation) ([.dispatch Sample.environment, .verify Sample.verified] ++
        .requireCleanup :: [.verify Sample.verified])).preparation.state = .cleanupPending ∨
      (run (start Sample.preparation) ([.dispatch Sample.environment, .verify Sample.verified] ++
        .requireCleanup :: [.verify Sample.verified])).preparation.state = .cleaned) := by
  obtain ⟨-, -, hplan, -, hend, -⟩ := preparation_machine Sample.disclosure_prepared
    [.dispatch Sample.environment, .verify Sample.verified] [.verify Sample.verified] .requireCleanup
  exact ⟨hplan, hend⟩

end Preparation

end Mikaki
