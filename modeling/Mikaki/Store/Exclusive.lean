import Mikaki.Work.Lifecycle
import Mikaki.Store.Keys
import Mikaki.Store.Operations

/-!
# One adoption at a time

What holds of the operations, their claims and their targets in every state of
the store: an operation that was dispatched and is not settled holds the claim
on its target, no other does, and its target revision is its own.
-/

namespace Mikaki

/-! ## The calls of the core on an operation -/

/-- A call that succeeds on `o` and leaves `o'`. -/
inductive ExternalOperation.Moves (o o' : ExternalOperation) : Prop
  | dispatch (a : CodeApproval) (c : AdoptionContext) (h : a.dispatch o c = (.ok (), o'))
  | cancel (h : o.cancelUndispatched = (.ok (), o'))
  | record (outcome : WorkStore.Outcome) (h : outcome.record o = (.ok (), o'))

namespace ExternalOperation

variable {o o' : ExternalOperation}

theorem finish_ok {outcome : OperationState} {receipt : String} (h : o.finish outcome receipt = (.ok (), o')) :
    o.state ≠ .prepared ∧ o'.id = o.id ∧ o'.effect = o.effect := by
  obtain ⟨r, -, hs, he⟩ | ⟨r, -, hs, -, -, he⟩ | ⟨e, he⟩ := o.finish_cases outcome receipt
  · cases he.symm.trans h
    refine ⟨fun hp => ?_, rfl, rfl⟩
    simp [hp] at hs
  · cases he.symm.trans h
    refine ⟨fun hp => ?_, rfl, rfl⟩
    simp [hp] at hs
  · cases he.symm.trans h

/-- An outcome is recorded of what was dispatched. -/
theorem record_ok {outcome : WorkStore.Outcome} (h : outcome.record o = (.ok (), o')) :
    o.state ≠ .prepared ∧ o'.id = o.id ∧ o'.effect = o.effect := by
  cases outcome with
  | unknown =>
    obtain ⟨hs, he⟩ | ⟨e, he⟩ := o.markOutcomeUnknown_cases
    · cases he.symm.trans h
      refine ⟨fun hp => ?_, rfl, rfl⟩
      simp [hp] at hs
    · cases he.symm.trans h
  | applied receipt => exact finish_ok h
  | rejected receipt => exact finish_ok h

theorem Moves.same (h : o.Moves o') : o'.id = o.id ∧ o'.effect = o.effect := by
  cases h with
  | dispatch a c h =>
    obtain ⟨-, -, -, he⟩ | ⟨e, he⟩ := a.dispatch_cases o c
    · cases he.symm.trans h; exact ⟨rfl, rfl⟩
    · cases he.symm.trans h
  | cancel h =>
    obtain ⟨-, he⟩ | ⟨e, he⟩ := o.cancelUndispatched_cases
    · cases he.symm.trans h; exact ⟨rfl, rfl⟩
    · cases he.symm.trans h
  | record outcome h => exact (record_ok h).2

theorem Moves.valid (h : o.Moves o') (hv : o.Valid) : o'.Valid := by
  cases h with
  | dispatch a c h =>
    have := dispatch_valid (a := a) (c := c) hv
    rwa [h] at this
  | cancel h =>
    have := cancel_valid hv
    rwa [h] at this
  | record outcome h =>
    have : (outcome.record o).2.Valid := by
      cases outcome with
      | unknown => exact unknown_valid hv
      | applied receipt => exact finish_valid rfl hv
      | rejected receipt => exact finish_valid rfl hv
    rwa [h] at this

theorem restore_state {text : String} {current : OperationState} {receipt : Option String}
    (h : restoreAuthorityRecord text current receipt = .ok o) : o.state = current := by
  simp only [restoreAuthorityRecord, Checks.bind_eq_ok, Checks.pure_eq_ok] at h
  obtain ⟨_, -, _, -, _, -, _, -, _, -, _, -, _, -, _, -, _, -, _, -, rfl⟩ := h
  rfl

/-- The record names the operation and its effect only. -/
theorem authorityRecord_same (hi : o'.id = o.id) (he : o'.effect = o.effect) : o'.authorityRecord = o.authorityRecord := by
  unfold authorityRecord toJson
  rw [hi, he]

end ExternalOperation

namespace WorkStore

open Rows Transactions

/-! ## What the text of a row says -/

theorem textAt_id {o : ExternalOperation} {text : String} (h : o.authorityRecord = .ok text) :
    textAt text ["data", "id"] = some o.id.text := by
  obtain ⟨-, rfl⟩ := Records.encode_ok.mp h
  simp [textAt, extract, Json.parse_render, Records.envelope, ExternalOperation.toJson, member, List.lookup,
    Json.Value.asStr]

theorem textAt_repository {o : ExternalOperation} {text : String} (h : o.authorityRecord = .ok text) :
    textAt text ["data", "effect", "repository"] = some o.effect.repository.text := by
  obtain ⟨-, rfl⟩ := Records.encode_ok.mp h
  simp [textAt, extract, Json.parse_render, Records.envelope, ExternalOperation.toJson, Effect.toJson, member,
    List.lookup, Json.Value.asStr]

theorem textAt_reference {o : ExternalOperation} {text : String} (h : o.authorityRecord = .ok text) :
    textAt text ["data", "effect", "reference"] = some o.effect.reference := by
  obtain ⟨-, rfl⟩ := Records.encode_ok.mp h
  simp [textAt, extract, Json.parse_render, Records.envelope, ExternalOperation.toJson, Effect.toJson, member,
    List.lookup, Json.Value.asStr]

theorem numberAt_targetRevision {o : ExternalOperation} {text : String} (hv : o.Valid) (h : o.authorityRecord = .ok text) :
    numberAt text ["data", "effect", "target_revision"] = some o.effect.targetRevision := by
  obtain ⟨-, rfl⟩ := Records.encode_ok.mp h
  have hb : o.effect.targetRevision < 2 ^ 63 := by
    have := hv.effect.targetRevision.2
    simp only [maxStoredInteger] at this
    omega
  simpa [numberAt, extract, Json.parse_render, Records.envelope, ExternalOperation.toJson, Effect.toJson, member,
    List.lookup, Json.Value.asNum] using hb

namespace OperationRow

variable (o : OperationRow)

/-- The target that the effect names. -/
def place : Option (String × String) :=
  (textAt o.body ["data", "effect", "repository"]).bind fun repository =>
    (textAt o.body ["data", "effect", "reference"]).map fun reference => (repository, reference)

def targetRevision : Option Nat := numberAt o.body ["data", "effect", "target_revision"]

/-- Dispatched and not settled. -/
def Active : Prop := o.state = .dispatched ∨ o.state = .outcomeUnknown

/-- Dispatched once, and perhaps settled since. -/
def Begun : Prop := o.state ≠ .prepared ∧ o.state ≠ .cancelled

/-- The row stands for an operation that the core prepared and moved. -/
def Restores [Hashes] : Prop :=
  ∃ first last : ExternalOperation, (∃ a c, CodeApproval.prepareOperation a adoptCode o.operationId c = .ok first) ∧
    first.authorityRecord = .ok o.body ∧ Relation.ReflTransGen ExternalOperation.Moves first last ∧ last.Valid ∧
    last.state = o.state ∧ last.receipt.map (·.text) = o.receipt

/-- The target of the effect is there, and once the operation is settled it has moved on. -/
def Ahead (targets : List TargetRow) : Prop :=
  ∃ t ∈ targets, o.place = some t.place ∧ ∃ n, o.targetRevision = some n ∧ n < maxStoredInteger ∧ n ≤ t.revision ∧
    (¬o.Active → n < t.revision)

variable {o}

theorem Active.begun (h : o.Active) : o.Begun := by
  unfold Begun
  rcases h with h | h <;> rw [h] <;> simp

/-- Where the record of a row restores to. -/
theorem restores_last [Hashes] {first last : ExternalOperation} (he : first.authorityRecord = .ok o.body)
    (hm : Relation.ReflTransGen ExternalOperation.Moves first last) (hv : last.Valid) :
    last.id = first.id ∧ last.effect = first.effect ∧ last.authorityRecord = .ok o.body ∧
      ExternalOperation.restoreAuthorityRecord o.body last.state (last.receipt.map (·.text)) = .ok last := by
  have hs : last.id = first.id ∧ last.effect = first.effect := by
    clear hv
    induction hm with
    | refl => exact ⟨rfl, rfl⟩
    | tail _ h ih => exact ⟨h.same.1.trans ih.1, h.same.2.trans ih.2⟩
  have hb : last.authorityRecord = .ok o.body := (ExternalOperation.authorityRecord_same hs.1 hs.2).trans he
  obtain ⟨text, ht, hr⟩ := ExternalOperation.restore_record hv
  cases hb.symm.trans ht
  exact ⟨hs.1, hs.2, hb, hr⟩

/-- What a row restores to, and what its text says of that. -/
theorem Restores.restored [Hashes] (h : o.Restores) :
    ∃ first last, (∃ a c, CodeApproval.prepareOperation a adoptCode o.operationId c = .ok first) ∧
      Relation.ReflTransGen ExternalOperation.Moves first last ∧ o.restore o.operationId = .ok last ∧
      o.place = some (last.effect.repository.text, last.effect.reference) ∧
      o.targetRevision = some last.effect.targetRevision := by
  obtain ⟨first, last, hp, he, hm, hv, hs, hr⟩ := h
  obtain ⟨hi, -, hb, hrest⟩ := restores_last he hm hv
  have hid : last.id.text = o.operationId := by
    obtain ⟨a, c, hp⟩ := hp
    rw [hi, (CodeApproval.prepareOperation_ok.mp hp).2.1]
  refine ⟨first, last, hp, hm, ?_, ?_, numberAt_targetRevision hv hb⟩
  · rw [hs, hr] at hrest
    simp only [OperationRow.restore, Checks.bind_eq_ok, Checks.denyIf_eq_ok, Checks.pure_eq_ok, ne_eq, Decidable.not_not]
    exact ⟨last, hrest, (), hid, rfl⟩
  · unfold place
    rw [textAt_repository hb, textAt_reference hb]
    rfl

/-- A row that is not settled has no receipt. -/
theorem Restores.receipt [Hashes] (h : o.Restores) (hn : o.state.terminal = false) : o.receipt = none := by
  obtain ⟨first, last, -, -, -, hv, hs, hr⟩ := h
  have hl : last.receipt = none := by simpa [hs, hn] using hv.receipt.symm
  rw [← hr, hl]
  rfl

/-- A call on what an unsettled row restores to takes the row to a row that restores. -/
theorem Restores.move [Hashes] {o' : OperationRow} (h : o.Restores) {r : Option String} {last last' : ExternalOperation}
    (hr : ExternalOperation.restoreAuthorityRecord o.body o.state r = .ok last) (hn : o.state.terminal = false)
    (hm : last.Moves last') (hi : o'.operationId = o.operationId) (hb : o'.body = o.body) (hs : last'.state = o'.state)
    (hc : last'.receipt.map (·.text) = o'.receipt) : o'.Restores := by
  obtain ⟨first, l, hp, he, hsteps, hv, hls, -⟩ := h
  obtain ⟨-, -, hbody, -⟩ := restores_last he hsteps hv
  obtain ⟨hi', he', hs', -⟩ := ExternalOperation.restore_same hbody hr
  have hv' := ExternalOperation.restore_valid hr
  have hl : last = l := by
    have h₁ : l.receipt = none := by simpa [hls, hn] using hv.receipt.symm
    have h₂ : last.receipt = none := by simpa [hs', hn] using hv'.receipt.symm
    cases last
    cases l
    simp only at h₁ h₂ hi' he' hs' hls
    simp only [h₁, h₂, hi', he', hs', hls]
  subst hl
  exact ⟨first, last', hi ▸ hp, hb ▸ he, hsteps.tail hm, hm.valid hv, hs, hc⟩

end OperationRow

/-! ## The invariant -/

structure Exclusive [Hashes] (d : Db) : Prop where
  keys : Keys d
  held : ∀ o ∈ d.operations, o.Active → ∃ k ∈ d.claims, k.operationId = o.operationId
  claimed : ∀ k ∈ d.claims, ∃ o ∈ d.operations, o.operationId = k.operationId ∧ o.Active ∧ o.place = some k.place
  ahead : ∀ o ∈ d.operations, o.Begun → o.Ahead d.targets
  distinct : ∀ o ∈ d.operations, ∀ o' ∈ d.operations, o.Begun → o'.Begun → o.place = o'.place →
    o.targetRevision = o'.targetRevision → o = o'
  restores : ∀ o ∈ d.operations, o.Restores

/-- What the calls send: the bound values are those of a call of the core that succeeded. -/
def Sent [Hashes] : Batch → Prop
  | .prepareOperation body => ∃ a c id first, CodeApproval.prepareOperation a adoptCode id c = .ok first ∧ first.Valid ∧
      first.authorityRecord = .ok body
  | .dispatch _ _ body => ∃ r a c o o', ExternalOperation.restoreAuthorityRecord body .prepared r = .ok o ∧
      CodeApproval.dispatch a o c = (.ok (), o')
  | .recordOutcome _ _ body after receipt before => ∃ r outcome o o',
      ExternalOperation.restoreAuthorityRecord body before r = .ok o ∧ Outcome.record outcome o = (.ok (), o') ∧
      o'.state = after ∧ o'.receipt.map (·.text) = receipt
  | _ => True

section
variable [Hashes] {d d' : Db}

theorem Exclusive.same (h : Exclusive d) (hk : Keys d') (hs : SameOperations d d') : Exclusive d' := by
  obtain ⟨ho, hc, ht⟩ := hs
  refine ⟨hk, ?_, ?_, ?_, ?_, ?_⟩
  · rw [ho, hc]; exact h.held
  · rw [ho, hc]; exact h.claimed
  · rw [ho, ht]; exact h.ahead
  · rw [ho]; exact h.distinct
  · rw [ho]; exact h.restores

/-- No target is lost and no revision goes back. -/
def Grown (targets targets' : List TargetRow) : Prop :=
  ∀ t ∈ targets, ∃ t' ∈ targets', t'.place = t.place ∧ t.revision ≤ t'.revision

omit [Hashes] in
theorem OperationRow.Ahead.grown {o : OperationRow} {targets targets' : List TargetRow} (h : o.Ahead targets)
    (hg : Grown targets targets') : o.Ahead targets' := by
  obtain ⟨t, ht, hp, n, hn, hm, hle, hlt⟩ := h
  obtain ⟨t', ht', hp', hr⟩ := hg t ht
  exact ⟨t', ht', hp'.symm ▸ hp, n, hn, hm, Nat.le_trans hle hr, fun ha => Nat.lt_of_lt_of_le (hlt ha) hr⟩

theorem Exclusive.refreshTarget (h : Exclusive d) {t : TargetRow} (hr : refreshTarget d t = some d') : Exclusive d' := by
  have hk := h.keys.refreshTarget hr
  obtain ⟨hn, rfl⟩ | ⟨u, hu, hp, hlt, rfl⟩ := refreshTarget_some h.keys.targets hr
  · refine { h with keys := hk, ahead := fun o ho hb => (h.ahead o ho hb).grown fun v hv => ?_ }
    exact ⟨v, List.mem_append_left _ hv, rfl, Nat.le_refl _⟩
  · refine { h with keys := hk, ahead := fun o ho hb => (h.ahead o ho hb).grown fun v hv => ?_ }
    by_cases he : v.place = t.place
    · have hvu : v = u := h.keys.targets.eq hv hu (he.trans hp.symm)
      exact ⟨t, (mem_replace TargetRow.place t hu hp.symm).mpr (.inl rfl), he.symm, hvu ▸ Nat.le_of_lt hlt⟩
    · exact ⟨v, (mem_replace TargetRow.place t hu hp.symm).mpr (.inr ⟨hv, he⟩), rfl, Nat.le_refl _⟩

theorem Exclusive.prepareOperation (h : Exclusive d) {body : String} (hs : Sent (.prepareOperation body))
    (hr : prepareOperation d body = some d') : Exclusive d' := by
  have hk := h.keys.prepareOperation hr
  obtain ⟨o, hc, rfl, hst, -, hrec, hf, rfl⟩ := prepareOperation_some hr
  obtain ⟨a, c, id, first, hp, hv, he⟩ := hs
  have hna : ¬o.Active := by simp [OperationRow.Active, hst]
  have hnb : ¬o.Begun := fun hb => hb.1 hst
  refine ⟨hk, ?_, ?_, ?_, ?_, ?_⟩
  · intro x hx ha
    rcases mem_snoc.mp hx with hx | rfl
    · exact h.held x hx ha
    · exact absurd ha hna
  · intro k hk
    obtain ⟨x, hx, hx'⟩ := h.claimed k hk
    exact ⟨x, List.mem_append_left _ hx, hx'⟩
  · intro x hx hb
    rcases mem_snoc.mp hx with hx | rfl
    · exact h.ahead x hx hb
    · exact absurd hb hnb
  · intro x hx y hy hbx hby
    rcases mem_snoc.mp hx with hx | rfl
    · rcases mem_snoc.mp hy with hy | rfl
      · exact h.distinct x hx y hy hbx hby
      · exact absurd hby hnb
    · exact absurd hbx hnb
  · intro x hx
    rcases mem_snoc.mp hx with hx | rfl
    · exact h.restores x hx
    · obtain ⟨-, hid, hfirst⟩ := CodeApproval.prepareOperation_ok.mp hp
      have hx : x.operationId = id := Option.some.inj (hc.2.1.symm.trans ((textAt_id he).trans (congrArg some hid)))
      refine ⟨first, first, ⟨a, c, hx ▸ hp⟩, he, .refl, hv, ?_, ?_⟩
      · rw [hfirst, hst]
      · rw [hfirst, hrec]; rfl

/-! ### One operation moves -/

section
variable {o o' : OperationRow}

/-- A claim of `o` is one that an active `o` holds. -/
theorem Exclusive.claim_of (h : Exclusive d) (ho : o ∈ d.operations) {k : ClaimRow} (hk : k ∈ d.claims)
    (he : k.operationId = o.operationId) : o.Active ∧ o.place = some k.place := by
  obtain ⟨x, hx, hi, ha⟩ := h.claimed k hk
  rw [← h.keys.operations.eq hx ho (hi.trans he)]
  exact ha

/-- One row is replaced by another with its key and its text, and only its own claim may come or go. -/
theorem Exclusive.replaceOperation (h : Exclusive d) (ho : o ∈ d.operations) (hr : o'.Restores)
    (hi : o'.operationId = o.operationId) (hb : o'.body = o.body) (hk : Keys d')
    (hd : d'.operations = replace OperationRow.operationId o' d.operations) (hg : Grown d.targets d'.targets)
    (hc : ∀ k, k.operationId ≠ o.operationId → (k ∈ d'.claims ↔ k ∈ d.claims))
    (hheld : o'.Active → ∃ k ∈ d'.claims, k.operationId = o.operationId)
    (hclaimed : ∀ k ∈ d'.claims, k.operationId = o.operationId → o'.Active ∧ o.place = some k.place)
    (hahead : o'.Begun → o'.Ahead d'.targets)
    (hdistinct : o'.Begun → ∀ x ∈ d.operations, x.Begun → x.operationId ≠ o.operationId → x.place = o.place →
      x.targetRevision ≠ o.targetRevision) : Exclusive d' := by
  have hmem : ∀ x, x ∈ d'.operations ↔ x = o' ∨ (x ∈ d.operations ∧ x.operationId ≠ o.operationId) := by
    intro x
    rw [hd, mem_replace OperationRow.operationId o' ho hi, hi]
  have hplace : o'.place = o.place := by unfold OperationRow.place; rw [hb]
  have hrev : o'.targetRevision = o.targetRevision := by unfold OperationRow.targetRevision; rw [hb]
  refine ⟨hk, ?_, ?_, ?_, ?_, ?_⟩
  · intro x hx ha
    rcases (hmem x).mp hx with rfl | ⟨hx, hne⟩
    · obtain ⟨k, hk, hki⟩ := hheld ha
      exact ⟨k, hk, hki.trans hi.symm⟩
    · obtain ⟨k, hk, hki⟩ := h.held x hx ha
      exact ⟨k, (hc k (hki ▸ hne)).mpr hk, hki⟩
  · intro k hk
    by_cases he : k.operationId = o.operationId
    · obtain ⟨ha, hp⟩ := hclaimed k hk he
      exact ⟨o', (hmem o').mpr (.inl rfl), hi.trans he.symm, ha, hplace.trans hp⟩
    · obtain ⟨x, hx, hxi, hx'⟩ := h.claimed k ((hc k he).mp hk)
      exact ⟨x, (hmem x).mpr (.inr ⟨hx, hxi ▸ he⟩), hxi, hx'⟩
  · intro x hx hbx
    rcases (hmem x).mp hx with rfl | ⟨hx, -⟩
    · exact hahead hbx
    · exact (h.ahead x hx hbx).grown hg
  · intro x hx y hy hbx hby hp hn
    rcases (hmem x).mp hx with rfl | ⟨hx, hxi⟩
    · rcases (hmem y).mp hy with rfl | ⟨hy, hyi⟩
      · rfl
      · exact absurd (hn.symm.trans hrev) (hdistinct hbx y hy hby hyi (hp.symm.trans hplace))
    · rcases (hmem y).mp hy with rfl | ⟨hy, -⟩
      · exact absurd (hn.trans hrev) (hdistinct hby x hx hbx hxi (hp.trans hplace))
      · exact h.distinct x hx y hy hbx hby hp hn
  · intro x hx
    rcases (hmem x).mp hx with rfl | ⟨hx, -⟩
    · exact hr
    · exact h.restores x hx

end

omit [Hashes] in
theorem Grown.refl (targets : List TargetRow) : Grown targets targets := fun t ht => ⟨t, ht, rfl, Nat.le_refl _⟩

theorem Exclusive.cancelOperation (h : Exclusive d) {id body sessionHash : String} {revision : Nat}
    (hr : cancelOperation d id revision body sessionHash = some d') : Exclusive d' := by
  have hk := h.keys.cancelOperation hr
  obtain ⟨o, ho, -, -, hst, rfl⟩ := cancelOperation_some h.keys.operations hr
  have hna : ¬o.Active := by simp [OperationRow.Active, hst]
  have hcancel : OperationRow.Restores { o with state := .cancelled, revision := o.revision + 1 } := by
    obtain ⟨first, last, hp, he, hsteps, hv, hls, hrec⟩ := h.restores o ho
    have hc : last.cancelUndispatched = (.ok (), { last with state := .cancelled }) := by
      simp [ExternalOperation.cancelUndispatched, hls, hst]
    have hm : last.Moves { last with state := .cancelled } := .cancel hc
    exact ⟨first, _, hp, he, hsteps.tail hm, hm.valid hv, rfl, hrec⟩
  refine h.replaceOperation ho hcancel rfl rfl hk rfl (.refl _) (fun _ _ => .rfl) ?_ ?_ ?_ ?_
  · intro ha
    simp [OperationRow.Active] at ha
  · intro k hk he
    exact absurd (h.claim_of ho hk he).1 hna
  · intro hb
    exact absurd rfl hb.2
  · intro hb
    exact absurd rfl hb.2

/-- Another operation at the revision of a free target would still hold the claim on it. -/
theorem Exclusive.fresh_revision (h : Exclusive d) {o y : OperationRow} {t : TargetRow} (ht : t ∈ d.targets)
    (hp : o.place = some t.place) (hn : o.targetRevision = some t.revision) (hfree : ∀ k ∈ d.claims, k.place ≠ t.place)
    (hy : y ∈ d.operations) (hb : y.Begun) (hyp : y.place = o.place) : y.targetRevision ≠ o.targetRevision := by
  intro hyn
  obtain ⟨t', ht', hp', n, hn', -, -, hlt⟩ := h.ahead y hy hb
  have htt : t' = t := h.keys.targets.eq ht' ht (Option.some.inj (hp'.symm.trans (hyp.trans hp)))
  have hr : n = t.revision := Option.some.inj (hn'.symm.trans (hyn.trans hn))
  by_cases ha : y.Active
  · obtain ⟨k, hk, hki⟩ := h.held y hy ha
    have hkp := (h.claim_of hy hk hki).2
    exact hfree k hk (Option.some.inj (hkp.symm.trans (hyp.trans hp)))
  · have := hlt ha
    rw [htt, hr] at this
    exact Nat.lt_irrefl _ this

theorem Exclusive.dispatch (h : Exclusive d) {id body : String} {revision : Nat} (hs : Sent (.dispatch id revision body))
    (hr : dispatch d id revision body = some d') : Exclusive d' := by
  have hk := h.keys.dispatch hr
  obtain ⟨o, ho, rfl, rfl, hst, c, t, ht, hc, hp, hrepo, href, hn, hmax, hfree, rfl⟩ := dispatch_some h.keys.operations hr
  obtain ⟨r, a, x, p, p', hrest, hd⟩ := hs
  have hplace : o.place = some t.place := by simp [OperationRow.place, TargetRow.place, hrepo, href]
  have hnt : o.state.terminal = false := by rw [hst]; rfl
  rw [← hst] at hrest
  have hdisp : OperationRow.Restores { o with state := .dispatched, revision := o.revision + 1 } := by
    have hps : p'.state = .dispatched ∧ p'.receipt = p.receipt := by
      obtain ⟨-, -, -, hd'⟩ | ⟨e, hd'⟩ := a.dispatch_cases p x
      · cases hd'.symm.trans hd; exact ⟨rfl, rfl⟩
      · cases hd'.symm.trans hd
    have hpr : p.receipt = none := by
      have hs := (ExternalOperation.restore_valid hrest).receipt
      have he : p.state = .prepared := by
        obtain ⟨hp, -⟩ | ⟨e, hd'⟩ := a.dispatch_cases p x
        · exact hp
        · cases hd'.symm.trans hd
      simpa [he, OperationState.terminal] using hs.symm
    refine (h.restores o ho).move hrest hnt (.dispatch a x hd) rfl rfl hps.1 ?_
    rw [hps.2, hpr, (h.restores o ho).receipt hnt]
    rfl
  refine h.replaceOperation ho hdisp rfl rfl hk rfl (.refl _) ?_ ?_ ?_ ?_ ?_
  · intro k hne
    rw [mem_snoc]
    refine ⟨fun hk => hk.resolve_right fun he => hne ?_, .inl⟩
    rw [he, hc]
  · intro _
    exact ⟨c, List.mem_append_right _ (List.mem_singleton_self c), hc⟩
  · intro k hk he
    rcases mem_snoc.mp hk with hk | rfl
    · exact absurd he (hfree k hk).1
    · exact ⟨.inl rfl, hplace.trans (congrArg some hp.symm)⟩
  · intro _
    exact ⟨t, ht, hplace, t.revision, hn, hmax, Nat.le_refl _, fun hna => absurd (.inl rfl) hna⟩
  · intro _ y hy hby _ hyp
    exact h.fresh_revision ht hplace hn (fun k hk => hp ▸ (hfree k hk).2) hy hby hyp

omit [Hashes] in
/-- Fencing raises the target that the claim of a settled operation is on. -/
theorem grown_fence (d : Db) (id : String) : Grown d.targets (fenceTarget d id).targets := by
  intro t ht
  by_cases hc : t.revision < maxStoredInteger ∧ ∃ c ∈ d.claims, c.place = t.place ∧ c.operationId = id ∧
      ∃ o ∈ d.operations, o.operationId = c.operationId ∧ o.state.terminal = true
  · exact ⟨_, mem_update.mpr ⟨t, ht, .inl ⟨hc, rfl⟩⟩, rfl, Nat.le_succ _⟩
  · exact ⟨t, mem_update.mpr ⟨t, ht, .inr ⟨hc, rfl⟩⟩, rfl, Nat.le_refl _⟩

theorem Exclusive.recordOutcome (h : Exclusive d) {id body : String} {revision : Nat} {after before : OperationState}
    {receipt : Option String} (hs : Sent (.recordOutcome id revision body after receipt before))
    (hr : recordOutcome d id revision body after receipt before = some d') : Exclusive d' := by
  have hk := h.keys.recordOutcome hr
  obtain ⟨o, ho, rfl, rfl, rfl, o', ho', hok, e, he, hd⟩ := recordOutcome_some h.keys.operations hr
  obtain ⟨r, outcome, p, p', hrest, hrec, hps, hpr⟩ := hs
  subst ho' he
  have hp : p.state = o.state := ExternalOperation.restore_state hrest
  have hactive : o.Active := by
    obtain ⟨-, -, -, -, -, -, ⟨h₁, -⟩ | ⟨h₂, -⟩ | ⟨h₃, -⟩⟩ := hok
    · exact absurd (hp.trans h₁) (ExternalOperation.record_ok hrec).1
    · exact .inl h₂
    · exact .inr h₃
  have hnt : o.state.terminal = false := by rcases hactive with ha | ha <;> rw [ha] <;> rfl
  have hmoved : OperationRow.Restores { o with state := after, receipt, revision := o.revision + 1 } :=
    (h.restores o ho).move hrest hnt (.record outcome hrec) rfl rfl hps hpr
  obtain ⟨t, ht, hplace, n, hn, hmax, hle, -⟩ := h.ahead o ho hactive.begun
  have hdistinct : ∀ x ∈ d.operations, x.Begun → x.operationId ≠ o.operationId → x.place = o.place →
      x.targetRevision ≠ o.targetRevision := by
    intro x hx hbx hne hxp hxn
    exact hne (congrArg OperationRow.operationId (h.distinct x hx o ho hbx hactive.begun hxp hxn))
  obtain ⟨k, hkm, hki⟩ := h.held o ho hactive
  have hkp := (h.claim_of ho hkm hki).2
  obtain ⟨ha, rfl⟩ | ⟨ha, rfl⟩ := hd
  · -- No receipt: the operation keeps its claim.
    have hact : OperationRow.Active { o with state := after, receipt, revision := o.revision + 1 } := by
      obtain ⟨-, -, -, -, -, -, ⟨h₀, -⟩ | ⟨-, h₁ | h₁ | h₁⟩ | ⟨-, h₁ | h₁⟩⟩ := hok
      · exact absurd (hp.trans h₀) (ExternalOperation.record_ok hrec).1
      · exact .inr h₁
      all_goals simp only at h₁; rw [h₁] at ha; cases ha
    refine h.replaceOperation ho hmoved rfl rfl hk rfl (.refl _) (fun _ _ => .rfl) ?_ ?_ ?_ fun _ => hdistinct
    · exact fun _ => ⟨k, hkm, hki⟩
    · exact fun k hk hki => ⟨hact, (h.claim_of ho hk hki).2⟩
    · exact fun _ => ⟨t, ht, hplace, n, hn, hmax, hle, fun hna => absurd hact hna⟩
  · -- A receipt: the target moves on before the claim is given up.
    have hna : ¬OperationRow.Active { o with state := after, receipt, revision := o.revision + 1 } := by
      rintro (h₁ | h₁) <;> simp only at h₁ <;> rw [h₁] at ha <;> cases ha
    have hg := grown_fence { d with
      operations := replace OperationRow.operationId { o with state := after, receipt, revision := o.revision + 1 }
        d.operations } o.operationId
    refine h.replaceOperation ho hmoved rfl rfl hk rfl hg ?_ ?_ ?_ ?_ fun _ => hdistinct
    · intro x hne
      simp [hne]
    · exact fun h₁ => absurd h₁ hna
    · intro x hx hxi
      simp [hxi] at hx
    · intro _
      have hmem : OperationRow.mk o.operationId o.approvalId o.ownerId after (o.revision + 1) receipt o.body ∈
          replace OperationRow.operationId { o with state := after, receipt, revision := o.revision + 1 } d.operations :=
        replace_mem OperationRow.operationId { o with state := after, receipt, revision := o.revision + 1 } ho rfl
      have hkt : k.place = t.place := Option.some.inj (hkp.symm.trans hplace)
      by_cases hlt : t.revision < maxStoredInteger
      · exact ⟨_, mem_update.mpr ⟨t, ht, .inl ⟨⟨hlt, k, hkm, hkt, hki, _, hmem, hki.symm, ha⟩, rfl⟩⟩, hplace, n, hn, hmax,
          Nat.le_succ_of_le hle, fun _ => Nat.lt_succ_of_le hle⟩
      · exact ⟨t, mem_update.mpr ⟨t, ht, .inr ⟨fun h₁ => hlt h₁.1, rfl⟩⟩, hplace, n, hn, hmax, hle,
          fun _ => Nat.lt_of_lt_of_le hmax (Nat.not_lt.mp hlt)⟩

/-- Every batch that a call sends keeps the invariant. -/
theorem Exclusive.run (h : Exclusive d) {b : Batch} (hs : Sent b) (hr : b.run d = some d') : Exclusive d' := by
  cases hb : b.elsewhere with
  | true =>
    obtain ⟨hk, hsame | ⟨t, rfl⟩⟩ := h.keys.elsewhere hb hr
    · exact h.same hk hsame
    · exact h.refreshTarget hr
  | false =>
    cases b with
    | prepareOperation body => exact h.prepareOperation hs hr
    | dispatch id revision body => exact h.dispatch hs hr
    | recordOutcome id revision body after receipt before => exact h.recordOutcome hs hr
    | cancelOperation id revision body sessionHash => exact h.cancelOperation hr
    | _ => cases hb

theorem Exclusive.drift (h : Exclusive d) (hd : store.drift d d') : Exclusive d' := by
  have hk := h.keys.drift hd
  obtain ⟨around, rfl⟩ := hd
  exact h.same hk ⟨rfl, rfl, rfl⟩

/-! ## What becomes of an operation -/

omit [Hashes] in
/-- The batches that move an operation, and where they take it. -/
theorem operations_cases (hk : Keys d) {b : Batch} (hr : b.run d = some d') :
    (b.elsewhere = true ∧ SameOperations d d') ∨ (∃ t, b = .refreshTarget t ∧ d'.operations = d.operations ∧
        d'.claims = d.claims) ∨
      (∃ body o, b = .prepareOperation body ∧ d'.operations = d.operations ++ [o] ∧ d'.claims = d.claims) ∨
      ∃ o ∈ d.operations, ∃ o' : OperationRow, o'.operationId = o.operationId ∧
        d'.operations = replace OperationRow.operationId o' d.operations ∧
        ((∃ revision body, b = .dispatch o.operationId revision body ∧ o.state = .prepared ∧ o'.state = .dispatched ∧
            ∃ c, d'.claims = d.claims ++ [c]) ∨
          (∃ revision body after receipt before, b = .recordOutcome o.operationId revision body after receipt before ∧
            o'.state = after ∧ operationTransition o o' ∧
            d'.claims = if after.terminal then d.claims.filter fun c => c.operationId ≠ o.operationId else d.claims) ∨
          ∃ revision body sessionHash, b = .cancelOperation o.operationId revision body sessionHash ∧
            o.state = .prepared ∧ o'.state = .cancelled ∧ d'.claims = d.claims) := by
  cases hb : b.elsewhere with
  | true =>
    obtain ⟨-, hs | ⟨t, rfl⟩⟩ := hk.elsewhere hb hr
    · exact .inl ⟨rfl, hs⟩
    · refine .inr (.inl ⟨t, rfl, ?_⟩)
      obtain ⟨-, rfl⟩ | ⟨u, -, -, -, rfl⟩ := refreshTarget_some hk.targets hr
      · exact ⟨rfl, rfl⟩
      · exact ⟨rfl, rfl⟩
  | false =>
    cases b with
    | prepareOperation body =>
      obtain ⟨o, -, -, -, -, -, -, rfl⟩ := prepareOperation_some hr
      exact .inr (.inr (.inl ⟨body, o, rfl, rfl, rfl⟩))
    | dispatch id revision body =>
      obtain ⟨o, ho, rfl, -, hs, c, -, -, -, -, -, -, -, -, -, rfl⟩ := dispatch_some hk.operations hr
      exact .inr (.inr (.inr ⟨o, ho, { o with state := .dispatched, revision := o.revision + 1 }, rfl, rfl,
        .inl ⟨revision, body, rfl, hs, rfl, c, rfl⟩⟩))
    | recordOutcome id revision body after receipt before =>
      obtain ⟨o, ho, rfl, -, -, o', rfl, hok, e, rfl, hd⟩ := recordOutcome_some hk.operations hr
      refine .inr (.inr (.inr ⟨o, ho, { o with state := after, receipt, revision := o.revision + 1 }, rfl, ?_,
        .inr (.inl ⟨revision, body, after, receipt, before, rfl, rfl, hok, ?_⟩)⟩))
      · obtain ⟨-, rfl⟩ | ⟨-, rfl⟩ := hd <;> rfl
      · obtain ⟨ha, rfl⟩ | ⟨ha, rfl⟩ := hd <;> rw [ha] <;> rfl
    | cancelOperation id revision body sessionHash =>
      obtain ⟨o, ho, rfl, -, hs, rfl⟩ := cancelOperation_some hk.operations hr
      exact .inr (.inr (.inr ⟨o, ho, { o with state := .cancelled, revision := o.revision + 1 }, rfl, rfl,
        .inr (.inr ⟨revision, body, sessionHash, rfl, hs, rfl, rfl⟩)⟩))
    | _ => cases hb

/-- What a row may have become. -/
def Since (o o' : OperationRow) : Prop :=
  o'.operationId = o.operationId ∧ (o.Begun → o'.Begun) ∧ (o.state = .cancelled → o'.state = .cancelled)

omit [Hashes] in
theorem Since.refl (o : OperationRow) : Since o o := ⟨rfl, fun h => h, fun h => h⟩

omit [Hashes] in
/-- No operation is lost; what was dispatched stays so, and what was cancelled stays cancelled. -/
theorem since (hk : Keys d) {b : Batch} (hr : b.run d = some d') {o : OperationRow} (ho : o ∈ d.operations) :
    ∃ o' ∈ d'.operations, Since o o' := by
  obtain ⟨-, hs⟩ | ⟨t, -, hs, -⟩ | ⟨body, x, -, hs, -⟩ | ⟨x, hx, x', hi, hs, hc⟩ := operations_cases hk hr
  · exact ⟨o, hs.operations ▸ ho, .refl o⟩
  · exact ⟨o, hs ▸ ho, .refl o⟩
  · exact ⟨o, hs ▸ List.mem_append_left _ ho, .refl o⟩
  · by_cases he : o.operationId = x.operationId
    · cases hk.operations.eq ho hx he
      refine ⟨x', hs ▸ (mem_replace OperationRow.operationId x' hx hi).mpr (.inl rfl), hi, ?_⟩
      obtain ⟨-, -, -, h₁, -⟩ | ⟨-, -, after, -, -, -, -, h₁, -⟩ | ⟨-, -, -, -, h₁, -⟩ := hc
      · exact ⟨fun hb => absurd h₁ hb.1, fun hc => by simp [h₁] at hc⟩
      · obtain ⟨-, -, -, -, -, -, ⟨h₂, -⟩ | ⟨h₂, h₃⟩ | ⟨h₂, h₃⟩⟩ := h₁
        · exact ⟨fun hb => absurd h₂ hb.1, fun hc => by simp [h₂] at hc⟩
        · refine ⟨fun _ => ?_, fun hc => by simp [h₂] at hc⟩
          unfold OperationRow.Begun
          rcases h₃ with h₃ | h₃ | h₃ <;> rw [h₃] <;> simp
        · refine ⟨fun _ => ?_, fun hc => by simp [h₂] at hc⟩
          unfold OperationRow.Begun
          rcases h₃ with h₃ | h₃ <;> rw [h₃] <;> simp
      · exact ⟨fun hb => absurd h₁ hb.1, fun hc => by simp [h₁] at hc⟩
    · exact ⟨o, hs ▸ (mem_replace OperationRow.operationId x' hx hi).mpr (.inr ⟨ho, hi ▸ he⟩), .refl o⟩

/-- A claim is given up by the outcome of its operation, and by nothing else. -/
theorem Exclusive.released (h : Exclusive d) {b : Batch} (hr : b.run d = some d') {k : ClaimRow} (hk : k ∈ d.claims) :
    k ∉ d'.claims ↔ ∃ revision body after receipt before,
      b = .recordOutcome k.operationId revision body after receipt before ∧ after.terminal = true := by
  obtain ⟨hb, hs⟩ | ⟨t, rfl, -, hs⟩ | ⟨body, x, rfl, -, hs⟩ | ⟨x, hx, x', hi, -, hc⟩ := operations_cases h.keys hr
  · rw [hs.claims]
    refine ⟨fun hn => absurd hk hn, ?_⟩
    rintro ⟨revision, body, after, receipt, before, rfl, -⟩
    cases hb
  · rw [hs]
    exact ⟨fun hn => absurd hk hn, by rintro ⟨_, _, _, _, _, h, -⟩; cases h⟩
  · rw [hs]
    exact ⟨fun hn => absurd hk hn, by rintro ⟨_, _, _, _, _, h, -⟩; cases h⟩
  · obtain ⟨revision, body, rfl, -, -, c, hs⟩ | ⟨revision, body, after, receipt, before, rfl, -, -, hs⟩ |
      ⟨revision, body, sessionHash, rfl, -, -, hs⟩ := hc
    · rw [hs]
      exact ⟨fun hn => absurd (List.mem_append_left _ hk) hn, by rintro ⟨_, _, _, _, _, h, -⟩; cases h⟩
    · rw [hs]
      by_cases ht : after.terminal = true
      · rw [if_pos ht]
        constructor
        · intro hn
          have he : k.operationId = x.operationId := by simpa [hk] using hn
          exact ⟨revision, body, after, receipt, before, by rw [he], ht⟩
        · rintro ⟨_, _, _, _, _, he, -⟩
          simp only [Batch.recordOutcome.injEq] at he
          simp [he.1]
      · rw [if_neg ht]
        refine ⟨fun hn => absurd hk hn, ?_⟩
        rintro ⟨_, _, _, _, _, he, ht'⟩
        simp only [Batch.recordOutcome.injEq] at he
        exact absurd (he.2.2.2.1 ▸ ht') ht
    · rw [hs]
      exact ⟨fun hn => absurd hk hn, by rintro ⟨_, _, _, _, _, h, -⟩; cases h⟩

end

end WorkStore

end Mikaki
