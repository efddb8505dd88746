import Mikaki.Store.Batches

/-!
# What each batch does

One lemma for each batch: what it asked for and what it left. Everything that
holds of the store is derived from these.
-/

namespace Mikaki.WorkStore

open Rows

variable {d d' : Db}

/-! ## Requests -/

theorem saveRequestRow_some {body projection sessionHash : String} (h : saveRequestRow d body projection sessionHash = some d') :
    ∃ w : RequestRow, textAt body ["data", "digest"] = some w.digest ∧ w.body = body ∧ w.Check ∧
      (∀ v ∈ d.requests, v.digest ≠ w.digest) ∧
      (((∀ k ∈ d.heads, k.place ≠ (w.ownerId, w.requestId)) ∧ w.revision = 1) ∨
        ∃ k ∈ d.heads, k.place = (w.ownerId, w.requestId) ∧ k.revision + 1 = w.revision) ∧
      d' = { d with requests := d.requests ++ [w] } := by
  simp only [saveRequestRow, Option.bind_eq_bind, Option.bind_eq_some_iff, require_eq_some, insert_eq_some,
    Option.pure_def, Option.some.injEq, exists_const] at h
  obtain ⟨digest, hd, requestId, -, owner, -, revision, -, epoch, -, policy, -, deadline, -, ⟨-, -, -, -, hh⟩, requests,
    ⟨⟨hc, hf⟩, rfl⟩, rfl⟩ := h
  exact ⟨_, hd, rfl, hc, hf, hh, rfl⟩

theorem saveHead_some {digest : String} (hu : Unique HeadRow.place d.heads) (h : saveHead d digest = some d') :
    ∃ w ∈ d.requests, w.digest = digest ∧
      (((∀ k ∈ d.heads, k.place ≠ (w.ownerId, w.requestId)) ∧ d' = { d with
          heads := d.heads ++ [{ ownerId := w.ownerId, requestId := w.requestId, revision := w.revision, digest }] }) ∨
        ∃ old ∈ d.heads, old.place = (w.ownerId, w.requestId) ∧ old.revision + 1 = w.revision ∧
          d' = Db.revokeGrants
            { d with heads := replace HeadRow.place { old with revision := w.revision, digest } d.heads }
            fun g => g.requestDigest = old.digest) := by
  unfold saveHead at h
  simp only [Option.bind_eq_bind, Option.bind_eq_some_iff] at h
  obtain ⟨w, hw, h⟩ := h
  obtain ⟨hwm, hwd⟩ := lookup_mem hw
  refine ⟨w, hwm, hwd, ?_⟩
  cases hl : lookup HeadRow.place (w.ownerId, w.requestId) d.heads with
  | none =>
    simp only [hl, Option.pure_def, Option.some.injEq] at h
    exact .inl ⟨lookup_eq_none.mp hl, h.symm⟩
  | some old =>
    simp only [hl, Option.bind_eq_some_iff, Option.pure_def, Option.some.injEq] at h
    obtain ⟨heads, hup, rfl⟩ := h
    obtain ⟨hom, hop⟩ := lookup_mem hl
    obtain ⟨k, hk, ⟨hkp, hkr⟩, -, -, rfl⟩ := updateOne_replace hu hup (fun a b ha hb => ha.1.trans hb.1.symm) fun a _ => rfl
    have he : k = old := hu.eq hk hom (hkp.trans hop.symm)
    subst he
    exact .inr ⟨k, hk, hkp, hkr, rfl⟩

theorem bindPreparation_some {digest preparation : String} (h : bindPreparation d digest preparation = some d') :
    ∃ t ∈ d.preparedTasks, t.preparationId = preparation ∧ d.preparedTaskCurrent t.repositoryId ∧
      (∃ w ∈ d.requests, w.digest = digest ∧
        textAt w.body ["data", "input", "task_repository"] = some t.repositoryId) ∧
      (∀ r ∈ d.requestPreparations, r.requestDigest ≠ digest) ∧
      d' = { d with requestPreparations :=
        d.requestPreparations ++ [{ requestDigest := digest, repositoryId := t.repositoryId }] } := by
  unfold bindPreparation at h
  simp only [Option.bind_eq_bind, Option.bind_eq_some_iff, require_eq_some, insert_eq_some, Option.pure_def,
    Option.some.injEq, exists_const] at h
  obtain ⟨t, ht, w, hw, p, -, k, -, ⟨hc, hr, -⟩, _, ⟨⟨-, hf⟩, rfl⟩, rfl⟩ := h
  obtain ⟨htm, htp⟩ := lookup_mem ht
  obtain ⟨hwm, hwd⟩ := lookup_mem hw
  exact ⟨t, htm, htp, hc, ⟨w, hwm, hwd, hr⟩, hf, rfl⟩

theorem saveRequest_some {body projection sessionHash : String} {preparation : Option String}
    (h : saveRequest d body projection sessionHash preparation = some d') :
    ∃ digest d₁ d₂, textAt body ["data", "digest"] = some digest ∧ saveRequestRow d body projection sessionHash = some d₁ ∧
      saveHead d₁ digest = some d₂ ∧
      (d' = d₂ ∨ ∃ p, bindPreparation d₂ digest p = some d') := by
  unfold saveRequest at h
  simp only [Option.bind_eq_bind, Option.bind_eq_some_iff] at h
  obtain ⟨digest, hd, d₁, h₁, d₂, h₂, h⟩ := h
  refine ⟨digest, d₁, d₂, hd, h₁, h₂, ?_⟩
  cases preparation with
  | none =>
    simp only [Option.pure_def, Option.some.injEq] at h
    exact .inl h.symm
  | some p => exact .inr ⟨p, h⟩

/-! ## Grants, runs and candidates -/

theorem find_some {α : Type} {p : α → Prop} [DecidablePred p] {t : List α} {a : α}
    (h : (t.find? fun a => p a) = some a) : a ∈ t ∧ p a :=
  ⟨List.mem_of_find?_eq_some h, by simpa using List.find?_some h⟩

theorem saveGrant_some {body sessionHash : String} (h : saveGrant d body sessionHash = some d') :
    ∃ g : GrantRow, g.Check ∧ (∀ k ∈ d.grants, k.grantId ≠ g.grantId) ∧ g.revision = 1 ∧ g.revoked = false ∧
      (∃ w ∈ d.requests, d.liveRequest w ∧ w.digest = g.requestDigest ∧ ∃ t ∈ d.tasks,
        textAt w.body ["data", "input", "task_repository"] = some t.repositoryId ∧ t.revision = g.taskRevision) ∧
      d' = { d with grants := d.grants ++ [g] } := by
  unfold saveGrant at h
  simp only [Option.bind_eq_bind, Option.bind_eq_some_iff, insert_eq_some, Option.pure_def, Option.some.injEq] at h
  obtain ⟨id, -, w, hw, t, ht, grants, ⟨⟨hc, hf⟩, rfl⟩, rfl⟩ := h
  obtain ⟨hwm, hlive, -⟩ := find_some hw
  obtain ⟨htm, htr, -⟩ := find_some ht
  exact ⟨_, hc, hf, rfl, rfl, ⟨w, hwm, hlive, rfl, t, htm, htr, rfl⟩, rfl⟩

theorem saveRun_some {body : String} {actorExpires : Nat} (h : saveRun d body actorExpires = some d') :
    ∃ r : RunRow, (∀ k ∈ d.runs, k.runId ≠ r.runId) ∧ r.revision = 1 ∧ r.revoked = false ∧
      (∃ g ∈ d.grants, d.liveGrant g ∧ g.grantId = r.grantId ∧ g.requestDigest = r.requestDigest) ∧
      d' = { d with runs := d.runs ++ [r] } := by
  unfold saveRun at h
  simp only [Option.bind_eq_bind, Option.bind_eq_some_iff, insert_eq_some, require_eq_some, Option.pure_def,
    Option.some.injEq, exists_const] at h
  obtain ⟨id, -, expires, -, g, hg, w, -, -, runs, ⟨⟨-, hf⟩, rfl⟩, rfl⟩ := h
  obtain ⟨hgm, hlive, -⟩ := find_some hg
  exact ⟨_, hf, rfl, rfl, ⟨g, hgm, hlive, rfl, rfl⟩, rfl⟩

theorem saveCandidate_some {body : String} (h : saveCandidate d body = some d') :
    ∃ c : CandidateRow, c.body = body ∧ (∀ k ∈ d.candidates, k.digest ≠ c.digest) ∧
      (∃ r ∈ d.runs, d.liveRun r ∧ r.runId = c.runId ∧ ∃ g ∈ d.grants, d.liveGrant g ∧ g.grantId = c.grantId ∧
        ∃ w ∈ d.requests, w.digest = c.requestDigest ∧ candidateOf d body r g w) ∧
      d' = { d with candidates := d.candidates ++ [c] } := by
  unfold saveCandidate at h
  simp only [Option.bind_eq_bind, Option.bind_eq_some_iff, insert_eq_some, require_eq_some, Option.pure_def,
    Option.some.injEq, exists_const] at h
  obtain ⟨digest, -, r, hr, g, hg, w, hw, hof, candidates, ⟨⟨-, hf⟩, rfl⟩, rfl⟩ := h
  obtain ⟨hrm, -⟩ := find_some hr
  obtain ⟨hgm, hgr⟩ := lookup_mem hg
  obtain ⟨hwm, hwr⟩ := lookup_mem hw
  exact ⟨_, rfl, hf, ⟨r, hrm, hof.1, rfl, g, hgm, hof.2.1, hgr, w, hwm, hwr, hof⟩, rfl⟩

/-! ## Approvals and revocations -/

theorem saveApproval_some {body projection sessionHash : String} (h : saveApproval d body projection sessionHash = some d') :
    ∃ a : ApprovalRow, (∀ k ∈ d.approvals, k.approvalId ≠ a.approvalId) ∧ a.revision = 1 ∧ a.revoked = false ∧
      d' = { d with approvals := d.approvals ++ [a] } := by
  unfold saveApproval at h
  simp only [Option.bind_eq_bind, Option.bind_eq_some_iff, insert_eq_some, require_eq_some, Option.pure_def,
    Option.some.injEq, exists_const] at h
  obtain ⟨id, -, expires, -, epoch, -, policy, -, c, -, g, -, r, -, t, -, -, approvals, ⟨⟨-, hf⟩, rfl⟩, rfl⟩ := h
  exact ⟨_, hf, rfl, rfl, rfl⟩

theorem revokeGrant_some {id sessionHash : String} (hu : Unique GrantRow.grantId d.grants)
    (h : revokeGrant d id sessionHash = some d') : ∃ g ∈ d.grants, g.grantId = id ∧ g.revoked = false ∧
      d' = { d with grants := replace GrantRow.grantId g.revoke d.grants } := by
  unfold revokeGrant at h
  simp only [Option.bind_eq_bind, Option.bind_eq_some_iff, Option.pure_def, Option.some.injEq] at h
  obtain ⟨grants, hup, rfl⟩ := h
  obtain ⟨g, hm, ⟨hid, hr, -⟩, -, -, rfl⟩ := updateOne_replace hu hup (fun a b ha hb => ha.1.trans hb.1.symm) fun a _ => rfl
  exact ⟨g, hm, hid, hr, rfl⟩

theorem revokeRun_some {id sessionHash : String} (hu : Unique RunRow.runId d.runs)
    (h : revokeRun d id sessionHash = some d') : ∃ r ∈ d.runs, r.runId = id ∧ r.revoked = false ∧
      d' = { d with runs := replace RunRow.runId r.revoke d.runs } := by
  unfold revokeRun at h
  simp only [Option.bind_eq_bind, Option.bind_eq_some_iff, Option.pure_def, Option.some.injEq] at h
  obtain ⟨runs, hup, rfl⟩ := h
  obtain ⟨r, hm, ⟨hid, hr, -⟩, -, -, rfl⟩ := updateOne_replace hu hup (fun a b ha hb => ha.1.trans hb.1.symm) fun a _ => rfl
  exact ⟨r, hm, hid, hr, rfl⟩

theorem revokeApproval_some {id sessionHash : String} (hu : Unique ApprovalRow.approvalId d.approvals)
    (h : revokeApproval d id sessionHash = some d') : ∃ a ∈ d.approvals, a.approvalId = id ∧ a.revoked = false ∧
      d' = { d with approvals := replace ApprovalRow.approvalId a.revoke d.approvals } := by
  unfold revokeApproval at h
  simp only [Option.bind_eq_bind, Option.bind_eq_some_iff, Option.pure_def, Option.some.injEq] at h
  obtain ⟨approvals, hup, rfl⟩ := h
  obtain ⟨a, hm, ⟨hid, hr, -⟩, -, -, rfl⟩ := updateOne_replace hu hup (fun a b ha hb => ha.1.trans hb.1.symm) fun a _ => rfl
  exact ⟨a, hm, hid, hr, rfl⟩

/-! ## Operations -/

theorem prepareOperation_some {body : String} (h : prepareOperation d body = some d') :
    ∃ o : OperationRow, o.Check ∧ o.body = body ∧ o.state = .prepared ∧ o.revision = 1 ∧ o.receipt = none ∧
      (∀ k ∈ d.operations, k.operationId ≠ o.operationId ∧ k.approvalId ≠ o.approvalId) ∧
      d' = { d with operations := d.operations ++ [o] } := by
  unfold prepareOperation at h
  simp only [Option.bind_eq_bind, Option.bind_eq_some_iff, insert_eq_some, require_eq_some, Option.pure_def,
    Option.some.injEq, exists_const] at h
  obtain ⟨id, -, a, -, hfree, operations, ⟨⟨hc, hf⟩, rfl⟩, rfl⟩ := h
  exact ⟨_, hc, rfl, rfl, rfl, rfl, fun k hk => ⟨hf k hk, hfree k hk⟩, rfl⟩

/-- The target that a claim is made for, at the revision that the operation names. -/
theorem claimTarget_some {id body : String} {revision : Nat} (h : claimTarget d id revision body = some d') :
    ∃ o ∈ d.operations, o.operationId = id ∧ o.body = body ∧ o.state = .prepared ∧ ∃ c : ClaimRow, ∃ t ∈ d.targets,
      c.operationId = id ∧ c.place = t.place ∧ textAt body ["data", "effect", "repository"] = some t.repositoryId ∧
      textAt body ["data", "effect", "reference"] = some t.reference ∧
      numberAt body ["data", "effect", "target_revision"] = some t.revision ∧ t.revision < maxStoredInteger ∧
      (∀ k ∈ d.claims, k.operationId ≠ id ∧ k.place ≠ c.place) ∧
      d' = { d with claims := d.claims ++ [c] } := by
  unfold claimTarget at h
  simp only [Option.bind_eq_bind, Option.bind_eq_some_iff, insert_eq_some, require_eq_some, Option.pure_def,
    Option.some.injEq, exists_const] at h
  obtain ⟨o, ho, repository, hr, reference, hf, hfree, claims, ⟨⟨-, hplace⟩, rfl⟩, rfl⟩ := h
  obtain ⟨hom, ⟨hs, a, -, -, c, -, t, ht, hadopt, hsame⟩, rfl, -, rfl⟩ := find_some ho
  obtain ⟨-, -, -, -, -, -, -, -, -, htr, he1, he2, -⟩ := hsame
  obtain ⟨-, -, -, -, -, -, -, -, -, -, -, hrev, hmax, -⟩ := hadopt
  have hrt : repository = t.repositoryId := Option.some.inj (hr.symm.trans he1)
  have hft : reference = t.reference := Option.some.inj (hf.symm.trans he2)
  subst hrt hft
  exact ⟨o, hom, rfl, rfl, hs, _, t, ht, rfl, rfl, hr, hf, hrev ▸ htr, hmax, fun k hk => ⟨hfree k hk, hplace k hk⟩, rfl⟩

theorem dispatchOperation_some {id body : String} {revision : Nat} (hu : Unique OperationRow.operationId d.operations)
    (h : dispatchOperation d id revision body = some d') :
    ∃ o ∈ d.operations, o.operationId = id ∧ o.body = body ∧ o.state = .prepared ∧ d' = { d with
      operations := replace OperationRow.operationId { o with state := .dispatched, revision := o.revision + 1 }
        d.operations } := by
  unfold dispatchOperation at h
  simp only [Option.bind_eq_bind, Option.bind_eq_some_iff, Option.pure_def, Option.some.injEq] at h
  obtain ⟨operations, hup, rfl⟩ := h
  obtain ⟨o, ho, ⟨hid, -, hb, hs, -⟩, -, -, rfl⟩ :=
    updateOne_replace hu hup (fun a b ha hb => ha.1.trans hb.1.symm) fun a _ => rfl
  exact ⟨o, ho, hid, hb, hs, rfl⟩

theorem transitionOperation_some {id body : String} {revision : Nat} {after before : OperationState}
    {receipt : Option String} (hu : Unique OperationRow.operationId d.operations)
    (h : transitionOperation d id revision body after receipt before = some d') :
    ∃ o ∈ d.operations, o.operationId = id ∧ o.body = body ∧ o.state = before ∧
      operationTransition o { o with state := after, receipt, revision := o.revision + 1 } ∧ d' = { d with
        operations := replace OperationRow.operationId { o with state := after, receipt, revision := o.revision + 1 }
          d.operations } := by
  unfold transitionOperation at h
  simp only [Option.bind_eq_bind, Option.bind_eq_some_iff, Option.pure_def, Option.some.injEq] at h
  obtain ⟨operations, hup, rfl⟩ := h
  obtain ⟨o, ho, ⟨hid, -, hb, hs⟩, hok, -, rfl⟩ :=
    updateOne_replace hu hup (fun a b ha hb => ha.1.trans hb.1.symm) fun a _ => rfl
  exact ⟨o, ho, hid, hb, hs, hok, rfl⟩

theorem cancelOperation_some {id body sessionHash : String} {revision : Nat}
    (hu : Unique OperationRow.operationId d.operations) (h : cancelOperation d id revision body sessionHash = some d') :
    ∃ o ∈ d.operations, o.operationId = id ∧ o.body = body ∧ o.state = .prepared ∧ d' = { d with
      operations := replace OperationRow.operationId { o with state := .cancelled, revision := o.revision + 1 }
        d.operations } := by
  unfold cancelOperation at h
  simp only [Option.bind_eq_bind, Option.bind_eq_some_iff, Option.pure_def, Option.some.injEq] at h
  obtain ⟨operations, hup, rfl⟩ := h
  obtain ⟨o, ho, ⟨hid, -, hb, hs, -⟩, -, -, rfl⟩ :=
    updateOne_replace hu hup (fun a b ha hb => ha.1.trans hb.1.symm) fun a _ => rfl
  exact ⟨o, ho, hid, hb, hs, rfl⟩

theorem releaseTarget_some {id : String} (h : releaseTarget d id = some d') :
    d' = { d with claims := d.claims.filter fun c => c.operationId ≠ id } := by
  unfold releaseTarget at h
  simp only [Option.bind_eq_bind, Option.bind_eq_some_iff, require_eq_some, Option.pure_def, Option.some.injEq,
    exists_const] at h
  exact h.2.symm

/-- The batch of a dispatch: the operation goes forward and its claim is new. -/
theorem dispatch_some {id body : String} {revision : Nat} (hu : Unique OperationRow.operationId d.operations)
    (h : dispatch d id revision body = some d') :
    ∃ o ∈ d.operations, o.operationId = id ∧ o.body = body ∧ o.state = .prepared ∧ ∃ c : ClaimRow, ∃ t ∈ d.targets,
      c.operationId = id ∧ c.place = t.place ∧ textAt body ["data", "effect", "repository"] = some t.repositoryId ∧
      textAt body ["data", "effect", "reference"] = some t.reference ∧
      numberAt body ["data", "effect", "target_revision"] = some t.revision ∧ t.revision < maxStoredInteger ∧
      (∀ k ∈ d.claims, k.operationId ≠ id ∧ k.place ≠ c.place) ∧ d' = { d with
        claims := d.claims ++ [c]
        operations := replace OperationRow.operationId { o with state := .dispatched, revision := o.revision + 1 }
          d.operations } := by
  unfold dispatch at h
  simp only [Option.bind_eq_bind, Option.bind_eq_some_iff] at h
  obtain ⟨d₁, h₁, h₂⟩ := h
  obtain ⟨-, -, -, -, -, c, t, ht, hc, hp, hr, hf, hn, hm, hfree, rfl⟩ := claimTarget_some h₁
  obtain ⟨o, ho, hid, hb, hs, rfl⟩ := dispatchOperation_some (d := { d with claims := d.claims ++ [c] }) hu h₂
  exact ⟨o, ho, hid, hb, hs, c, t, ht, hc, hp, hr, hf, hn, hm, hfree, rfl⟩

/-- The batch of an outcome: the operation goes forward, and a receipt fences its target and gives up its claim. -/
theorem recordOutcome_some {id body : String} {revision : Nat} {after before : OperationState} {receipt : Option String}
    (hu : Unique OperationRow.operationId d.operations)
    (h : recordOutcome d id revision body after receipt before = some d') :
    ∃ o ∈ d.operations, o.operationId = id ∧ o.body = body ∧ o.state = before ∧ ∃ o' : OperationRow,
      o' = { o with state := after, receipt, revision := o.revision + 1 } ∧ operationTransition o o' ∧ ∃ e : Db,
      e = { d with operations := replace OperationRow.operationId o' d.operations } ∧
      ((after.terminal = false ∧ d' = e) ∨
        (after.terminal = true ∧
          d' = { fenceTarget e id with claims := d.claims.filter fun c => c.operationId ≠ id })) := by
  unfold recordOutcome at h
  simp only [Option.bind_eq_bind, Option.bind_eq_some_iff] at h
  obtain ⟨e, h₁, h₂⟩ := h
  obtain ⟨o, ho, hid, hb, hs, hok, rfl⟩ := transitionOperation_some hu h₁
  refine ⟨o, ho, hid, hb, hs, _, rfl, hok, _, rfl, ?_⟩
  cases ht : after.terminal with
  | true =>
    rw [ht, if_pos rfl] at h₂
    exact .inr ⟨rfl, releaseTarget_some h₂⟩
  | false =>
    rw [ht, if_neg (by simp), Option.pure_def, Option.some.injEq] at h₂
    exact .inl ⟨rfl, h₂.symm⟩

/-! ## Targets, task repositories and preparations -/

theorem refreshTarget_some {t : TargetRow} (hu : Unique TargetRow.place d.targets) (h : refreshTarget d t = some d') :
    ((∀ u ∈ d.targets, u.place ≠ t.place) ∧ d' = { d with targets := d.targets ++ [t] }) ∨
      ∃ u ∈ d.targets, u.place = t.place ∧ t.revision > u.revision ∧
        d' = { d with targets := replace TargetRow.place t d.targets } := by
  unfold refreshTarget at h
  cases hl : lookup TargetRow.place t.place d.targets with
  | none =>
    simp only [hl, Option.pure_def, Option.some.injEq] at h
    exact .inl ⟨lookup_eq_none.mp hl, h.symm⟩
  | some v =>
    simp only [hl, Option.bind_eq_bind, Option.bind_eq_some_iff, Option.pure_def, Option.some.injEq] at h
    obtain ⟨targets, hup, rfl⟩ := h
    obtain ⟨u, hum, hp, hok, -, rfl⟩ :=
      updateOne_replace hu hup (fun a b ha hb => ha.trans hb.symm) fun a ha => Eq.symm ha
    exact .inr ⟨u, hum, hp, hok.2.2.2, rfl⟩

theorem refreshTask_some {t : TaskRow} (hu : Unique TaskRow.repositoryId d.tasks) (h : refreshTask d t = some d') :
    ((∀ u ∈ d.tasks, u.repositoryId ≠ t.repositoryId) ∧ d' = { d with tasks := d.tasks ++ [t] }) ∨
      ∃ u ∈ d.tasks, u.repositoryId = t.repositoryId ∧ d' = Db.revokeGrants
        { d with tasks := replace TaskRow.repositoryId t d.tasks } fun g => ∃ w ∈ d.requests,
          w.digest = g.requestDigest ∧ textAt w.body ["data", "input", "task_repository"] = some t.repositoryId := by
  unfold refreshTask at h
  cases hl : lookup TaskRow.repositoryId t.repositoryId d.tasks with
  | none =>
    simp only [hl, Option.pure_def, Option.some.injEq] at h
    exact .inl ⟨lookup_eq_none.mp hl, h.symm⟩
  | some v =>
    simp only [hl, Option.bind_eq_bind, Option.bind_eq_some_iff, Option.pure_def, Option.some.injEq] at h
    obtain ⟨tasks, hup, rfl⟩ := h
    obtain ⟨u, hum, hp, -, -, rfl⟩ :=
      updateOne_replace hu hup (fun a b ha hb => ha.trans hb.symm) fun a ha => Eq.symm ha
    exact .inr ⟨u, hum, hp, rfl⟩

theorem savePreparation_some {p : PreparationRow} {sessionHash : String} (h : savePreparation d p sessionHash = some d') :
    p.state = .reserved ∧ (∀ q ∈ d.preparations, q.operationId ≠ p.operationId) ∧
      d' = { d with preparations := d.preparations ++ [p] } := by
  unfold savePreparation at h
  simp only [Option.bind_eq_bind, Option.bind_eq_some_iff, insert_eq_some, require_eq_some, Option.pure_def,
    Option.some.injEq, exists_const] at h
  obtain ⟨⟨hs, -⟩, preparations, ⟨⟨-, hf⟩, rfl⟩, rfl⟩ := h
  exact ⟨hs, hf, rfl⟩

theorem transitionPreparation_some {id body : String} {revision : Nat} {state : PreparationState}
    {evidence receipt : Option String} (hu : Unique PreparationRow.operationId d.preparations)
    (h : transitionPreparation d id revision body state evidence receipt = some d') :
    ∃ p ∈ d.preparations, p.operationId = id ∧ ∃ e : Db, e = { d with
        preparations := replace PreparationRow.operationId
          { p with state, revision := p.revision + 1, evidence, cleanupReceipt := receipt } d.preparations } ∧
      ((p.state = .verified ∧ state ≠ .verified ∧ d' = Db.revokeGrants e fun g =>
          ∃ r ∈ d.requestPreparations, r.requestDigest = g.requestDigest ∧
            ∃ t ∈ d.preparedTasks, t.repositoryId = r.repositoryId ∧ t.preparationId = id) ∨
        (¬(p.state = .verified ∧ state ≠ .verified) ∧ d' = e)) := by
  unfold transitionPreparation at h
  simp only [Option.bind_eq_bind, Option.bind_eq_some_iff] at h
  obtain ⟨old, ho, preparations, hup, h⟩ := h
  obtain ⟨p, hp, ⟨hid, -⟩, -, -, rfl⟩ := updateOne_replace hu hup (fun a b ha hb => ha.1.trans hb.1.symm) fun a _ => rfl
  obtain ⟨hom, hoi⟩ := lookup_mem ho
  have he : old = p := hu.eq hom hp (hoi.trans hid.symm)
  subst he
  refine ⟨old, hp, hid, _, rfl, ?_⟩
  by_cases hv : old.state = .verified ∧ state ≠ .verified
  · rw [if_pos hv, Option.pure_def, Option.some.injEq] at h
    exact .inl ⟨hv.1, hv.2, h.symm⟩
  · rw [if_neg hv, Option.pure_def, Option.some.injEq] at h
    exact .inr ⟨hv, h.symm⟩

theorem materializePreparedTask_some {id : String} {facts : TaskRow} (h : materializePreparedTask d id facts = some d') :
    ∃ p ∈ d.preparations, p.operationId = id ∧ p.state = .verified ∧ ∃ (k : TaskRow) (t : PreparedTaskRow),
      k.repositoryId = t.repositoryId ∧ t.preparationId = id ∧ (∀ u ∈ d.tasks, u.repositoryId ≠ k.repositoryId) ∧
      (∀ u ∈ d.preparedTasks, u.preparationId ≠ id ∧ u.repositoryId ≠ t.repositoryId) ∧
      d' = { d with tasks := d.tasks ++ [k], preparedTasks := d.preparedTasks ++ [t] } := by
  unfold materializePreparedTask at h
  simp only [Option.bind_eq_bind, Option.bind_eq_some_iff, insert_eq_some, require_eq_some, Option.pure_def,
    Option.some.injEq, exists_const] at h
  obtain ⟨p, hp, ⟨hs, -⟩, tasks, ⟨⟨-, hf⟩, rfl⟩, hfree, prepared, ⟨⟨-, hr⟩, rfl⟩, rfl⟩ := h
  obtain ⟨hpm, hpi⟩ := lookup_mem hp
  exact ⟨p, hpm, hpi, hs, _, _, rfl, rfl, hf, fun u hu => ⟨(hfree u hu).1, hr u hu⟩, rfl⟩

end Mikaki.WorkStore
