import Mikaki.Store.BatchSteps

/-!
# The keys of the managed-work tables

Every batch keeps the keys of every table unique. What does not concern the
operations leaves their tables as they are.
-/

namespace Mikaki.WorkStore

open Rows

structure Keys (d : Db) : Prop where
  tasks : Unique TaskRow.repositoryId d.tasks
  targets : Unique TargetRow.place d.targets
  requests : Unique RequestRow.digest d.requests
  heads : Unique HeadRow.place d.heads
  grants : Unique GrantRow.grantId d.grants
  runs : Unique RunRow.runId d.runs
  candidates : Unique CandidateRow.digest d.candidates
  approvals : Unique ApprovalRow.approvalId d.approvals
  operations : Unique OperationRow.operationId d.operations
  consumed : Unique OperationRow.approvalId d.operations
  claims : Unique ClaimRow.place d.claims
  claimants : Unique ClaimRow.operationId d.claims
  preparations : Unique PreparationRow.operationId d.preparations
  preparedTasks : Unique PreparedTaskRow.repositoryId d.preparedTasks
  prepared : Unique PreparedTaskRow.preparationId d.preparedTasks
  requestPreparations : Unique RequestPreparationRow.requestDigest d.requestPreparations

/-- A store without a row. -/
def Db.empty : Db :=
  { around := { now := 0, accounts := [], policy := none, sessions := [], sourceCurrent := [] }
    tasks := [], targets := [], requests := [], heads := [], grants := [], runs := [], candidates := [], approvals := []
    operations := [], claims := [], preparations := [], preparedTasks := [], requestPreparations := [] }

theorem Keys.empty : Keys .empty :=
  ⟨.nil, .nil, .nil, .nil, .nil, .nil, .nil, .nil, .nil, .nil, .nil, .nil, .nil, .nil, .nil, .nil⟩

/-- The tables of the operations. -/
structure SameOperations (d d' : Db) : Prop where
  operations : d'.operations = d.operations
  claims : d'.claims = d.claims
  targets : d'.targets = d.targets

variable {d d' : Db}

theorem SameOperations.refl (d : Db) : SameOperations d d := ⟨rfl, rfl, rfl⟩

theorem Keys.revokeGrants (h : Keys d) (p : GrantRow → Prop) [DecidablePred p] : Keys (d.revokeGrants p) :=
  { h with grants := h.grants.update fun _ _ _ => rfl }

theorem Keys.saveRequest (h : Keys d) {body projection sessionHash : String} {preparation : Option String}
    (hr : saveRequest d body projection sessionHash preparation = some d') : Keys d' ∧ SameOperations d d' := by
  obtain ⟨digest, d₁, d₂, -, h₁, h₂, h₃⟩ := saveRequest_some hr
  obtain ⟨w, -, -, -, hf, -, rfl⟩ := saveRequestRow_some h₁
  have hk₁ : Keys { d with requests := d.requests ++ [w] } := { h with requests := h.requests.snoc hf }
  have hk₂ : Keys d₂ ∧ d₂.requests = d.requests ++ [w] ∧ SameOperations d d₂ := by
    obtain ⟨v, -, -, ⟨hn, rfl⟩ | ⟨old, ho, -, -, rfl⟩⟩ := saveHead_some hk₁.heads h₂
    · exact ⟨{ hk₁ with heads := h.heads.snoc hn }, rfl, ⟨rfl, rfl, rfl⟩⟩
    · have hh : Keys { d with
          requests := d.requests ++ [w]
          heads := replace HeadRow.place { old with revision := v.revision, digest } d.heads } :=
        { hk₁ with heads := h.heads.replace h.heads ho rfl rfl }
      exact ⟨hh.revokeGrants _, rfl, ⟨rfl, rfl, rfl⟩⟩
  rcases h₃ with rfl | ⟨p, h₃⟩
  · exact ⟨hk₂.1, hk₂.2.2⟩
  · obtain ⟨t, -, -, -, -, hf, rfl⟩ := bindPreparation_some h₃
    exact ⟨{ hk₂.1 with requestPreparations := hk₂.1.requestPreparations.snoc hf },
      ⟨hk₂.2.2.operations, hk₂.2.2.claims, hk₂.2.2.targets⟩⟩

theorem Keys.refreshTarget (h : Keys d) {t : TargetRow} (hr : refreshTarget d t = some d') : Keys d' := by
  obtain ⟨hn, rfl⟩ | ⟨u, hu, hp, -, rfl⟩ := refreshTarget_some h.targets hr
  · exact { h with targets := h.targets.snoc hn }
  · exact { h with targets := h.targets.replace h.targets hu hp.symm hp.symm }

theorem Keys.refreshTask (h : Keys d) {t : TaskRow} (hr : refreshTask d t = some d') :
    Keys d' ∧ SameOperations d d' := by
  obtain ⟨hn, rfl⟩ | ⟨u, hu, hp, rfl⟩ := refreshTask_some h.tasks hr
  · exact ⟨{ h with tasks := h.tasks.snoc hn }, ⟨rfl, rfl, rfl⟩⟩
  · have ht : Keys { d with tasks := replace TaskRow.repositoryId t d.tasks } :=
      { h with tasks := h.tasks.replace h.tasks hu hp.symm hp.symm }
    exact ⟨ht.revokeGrants _, ⟨rfl, rfl, rfl⟩⟩

theorem Keys.transitionPreparation (h : Keys d) {id body : String} {revision : Nat} {state : PreparationState}
    {evidence receipt : Option String} (hr : transitionPreparation d id revision body state evidence receipt = some d') :
    Keys d' ∧ SameOperations d d' := by
  obtain ⟨p, hp, -, e, he, hd⟩ := transitionPreparation_some h.preparations hr
  have hke : Keys e ∧ SameOperations d e := by
    rw [he]
    exact ⟨{ h with preparations := h.preparations.replace h.preparations hp rfl rfl }, ⟨rfl, rfl, rfl⟩⟩
  obtain ⟨-, -, rfl⟩ | ⟨-, rfl⟩ := hd
  · exact ⟨hke.1.revokeGrants _, ⟨hke.2.operations, hke.2.claims, hke.2.targets⟩⟩
  · exact hke

/-! ## Operations -/

theorem Keys.prepareOperation (h : Keys d) {body : String} (hr : prepareOperation d body = some d') : Keys d' := by
  obtain ⟨o, -, -, -, -, -, hf, rfl⟩ := prepareOperation_some hr
  exact { h with operations := h.operations.snoc fun k hk => (hf k hk).1, consumed := h.consumed.snoc fun k hk => (hf k hk).2 }

/-- The operation under its key is replaced by one with the same approval. -/
theorem Keys.replaceOperation (h : Keys d) {o o' : OperationRow} (ho : o ∈ d.operations)
    (hi : o'.operationId = o.operationId) (ha : o'.approvalId = o.approvalId) :
    Keys { d with operations := replace OperationRow.operationId o' d.operations } :=
  { h with
    operations := h.operations.replace h.operations ho hi hi
    consumed := h.consumed.replace h.operations ho hi ha }

theorem Keys.dispatch (h : Keys d) {id body : String} {revision : Nat} (hr : dispatch d id revision body = some d') :
    Keys d' := by
  obtain ⟨o, ho, -, -, -, c, t, -, hc, -, -, -, -, -, hf, rfl⟩ := dispatch_some h.operations hr
  have hk : Keys { d with
      operations := replace OperationRow.operationId { o with state := .dispatched, revision := o.revision + 1 }
        d.operations } := h.replaceOperation ho rfl rfl
  exact { hk with
    claims := h.claims.snoc fun k hk => (hf k hk).2
    claimants := h.claimants.snoc fun k hk => hc ▸ (hf k hk).1 }

theorem Keys.fenceTarget (h : Keys d) (id : String) : Keys (fenceTarget d id) :=
  { h with targets := h.targets.update fun _ _ _ => rfl }

theorem Keys.recordOutcome (h : Keys d) {id body : String} {revision : Nat} {after before : OperationState}
    {receipt : Option String} (hr : recordOutcome d id revision body after receipt before = some d') : Keys d' := by
  obtain ⟨o, ho, -, -, -, o', ho', -, e, he, hd⟩ := recordOutcome_some h.operations hr
  have hk : Keys e := by
    rw [he]
    exact h.replaceOperation ho (by rw [ho']) (by rw [ho'])
  obtain ⟨-, rfl⟩ | ⟨-, rfl⟩ := hd
  · exact hk
  · exact { hk.fenceTarget id with claims := h.claims.filter _, claimants := h.claimants.filter _ }

theorem Keys.cancelOperation (h : Keys d) {id body sessionHash : String} {revision : Nat}
    (hr : cancelOperation d id revision body sessionHash = some d') : Keys d' := by
  obtain ⟨o, ho, -, -, -, rfl⟩ := cancelOperation_some h.operations hr
  exact h.replaceOperation ho rfl rfl

/-! ## Every batch -/

/-- The batches that insert or change a row elsewhere. -/
theorem Keys.elsewhere (h : Keys d) {b : Batch} (hb : b.elsewhere = true) (hr : b.run d = some d') :
    Keys d' ∧ (SameOperations d d' ∨ ∃ t, b = .refreshTarget t) := by
  cases b with
  | saveRequest body projection sessionHash preparation =>
    have hs := h.saveRequest hr
    exact ⟨hs.1, .inl hs.2⟩
  | saveGrant body sessionHash =>
    obtain ⟨g, -, hf, -, -, -, rfl⟩ := saveGrant_some hr
    exact ⟨{ h with grants := h.grants.snoc hf }, .inl ⟨rfl, rfl, rfl⟩⟩
  | saveRun body actorExpires =>
    obtain ⟨r, hf, -, -, -, rfl⟩ := saveRun_some hr
    exact ⟨{ h with runs := h.runs.snoc hf }, .inl ⟨rfl, rfl, rfl⟩⟩
  | saveCandidate body =>
    obtain ⟨c, -, hf, -, rfl⟩ := saveCandidate_some hr
    exact ⟨{ h with candidates := h.candidates.snoc hf }, .inl ⟨rfl, rfl, rfl⟩⟩
  | saveApproval body projection sessionHash =>
    obtain ⟨a, hf, -, -, rfl⟩ := saveApproval_some hr
    exact ⟨{ h with approvals := h.approvals.snoc hf }, .inl ⟨rfl, rfl, rfl⟩⟩
  | revokeGrant id sessionHash =>
    obtain ⟨g, hg, -, -, rfl⟩ := revokeGrant_some h.grants hr
    exact ⟨{ h with grants := h.grants.replace h.grants hg rfl rfl }, .inl ⟨rfl, rfl, rfl⟩⟩
  | revokeRun id sessionHash =>
    obtain ⟨n, hn, -, -, rfl⟩ := revokeRun_some h.runs hr
    exact ⟨{ h with runs := h.runs.replace h.runs hn rfl rfl }, .inl ⟨rfl, rfl, rfl⟩⟩
  | revokeApproval id sessionHash =>
    obtain ⟨a, ha, -, -, rfl⟩ := revokeApproval_some h.approvals hr
    exact ⟨{ h with approvals := h.approvals.replace h.approvals ha rfl rfl }, .inl ⟨rfl, rfl, rfl⟩⟩
  | prepareOperation body => cases hb
  | dispatch id revision body => cases hb
  | recordOutcome id revision body after receipt before => cases hb
  | cancelOperation id revision body sessionHash => cases hb
  | refreshTarget t => exact ⟨h.refreshTarget hr, .inr ⟨t, rfl⟩⟩
  | refreshTask t =>
    have hs := h.refreshTask hr
    exact ⟨hs.1, .inl hs.2⟩
  | savePreparation p sessionHash =>
    obtain ⟨-, hf, rfl⟩ := savePreparation_some hr
    exact ⟨{ h with preparations := h.preparations.snoc hf }, .inl ⟨rfl, rfl, rfl⟩⟩
  | transitionPreparation id revision body state evidence cleanupReceipt =>
    have hs := h.transitionPreparation hr
    exact ⟨hs.1, .inl hs.2⟩
  | materializePreparedTask id facts =>
    obtain ⟨p, -, -, -, k, t, -, ht, hf, hn, rfl⟩ := materializePreparedTask_some hr
    exact ⟨{ h with
      tasks := h.tasks.snoc hf
      preparedTasks := h.preparedTasks.snoc fun u hu => (hn u hu).2
      prepared := h.prepared.snoc fun u hu => ht ▸ (hn u hu).1 }, .inl ⟨rfl, rfl, rfl⟩⟩

theorem Keys.run (h : Keys d) {b : Batch} (hr : b.run d = some d') : Keys d' := by
  cases hb : b.elsewhere with
  | true => exact (h.elsewhere hb hr).1
  | false =>
    cases b with
    | prepareOperation body => exact h.prepareOperation hr
    | dispatch id revision body => exact h.dispatch hr
    | recordOutcome id revision body after receipt before => exact h.recordOutcome hr
    | cancelOperation id revision body sessionHash => exact h.cancelOperation hr
    | _ => cases hb

theorem Keys.drift (h : Keys d) (hd : store.drift d d') : Keys d' := by
  obtain ⟨around, rfl⟩ := hd
  exact { h with }

end Mikaki.WorkStore
