import Mikaki.Store.Keys

/-!
# Current authority

A grant that is not revoked is for a request that is still its head, for a task
repository at the revision it was given for, and for a preparation that is still
verified, if it is for one. The triggers of four tables keep this; here every
batch keeps it, with any values bound to it.
-/

namespace Mikaki.WorkStore

open Rows

structure Current (d : Db) : Prop where
  keys : Keys d
  heads : ∀ k ∈ d.heads, ∃ w ∈ d.requests, w.digest = k.digest ∧ k.place = (w.ownerId, w.requestId)
  head : ∀ g ∈ d.grants, g.revoked = false → ∃ k ∈ d.heads, k.digest = g.requestDigest
  task : ∀ g ∈ d.grants, g.revoked = false → ∃ w ∈ d.requests, w.digest = g.requestDigest ∧ ∃ t ∈ d.tasks,
    textAt w.body ["data", "input", "task_repository"] = some t.repositoryId ∧ t.revision = g.taskRevision
  prepared : ∀ g ∈ d.grants, g.revoked = false → ∀ r ∈ d.requestPreparations, r.requestDigest = g.requestDigest →
    ∀ t ∈ d.preparedTasks, t.repositoryId = r.repositoryId → ∀ p ∈ d.preparations, p.operationId = t.preparationId →
      p.state = .verified
  bound : ∀ r ∈ d.requestPreparations, ∃ w ∈ d.requests, w.digest = r.requestDigest ∧
    textAt w.body ["data", "input", "task_repository"] = some r.repositoryId
  materialized : ∀ t ∈ d.preparedTasks, ∃ p ∈ d.preparations, p.operationId = t.preparationId

/-- The tables that the authority of a grant rests on. -/
structure SameAuthority (d d' : Db) : Prop where
  requests : d'.requests = d.requests
  heads : d'.heads = d.heads
  grants : d'.grants = d.grants
  tasks : d'.tasks = d.tasks
  preparations : d'.preparations = d.preparations
  preparedTasks : d'.preparedTasks = d.preparedTasks
  requestPreparations : d'.requestPreparations = d.requestPreparations

variable {d d' : Db}

theorem Current.same (h : Current d) (hk : Keys d') (hs : SameAuthority d d') : Current d' := by
  obtain ⟨hr, hh, hg, ht, hp, hpt, hrp⟩ := hs
  refine ⟨hk, ?_, ?_, ?_, ?_, ?_, ?_⟩
  · rw [hh, hr]; exact h.heads
  · rw [hg, hh]; exact h.head
  · rw [hg, hr, ht]; exact h.task
  · rw [hg, hrp, hpt, hp]; exact h.prepared
  · rw [hrp, hr]; exact h.bound
  · rw [hpt, hp]; exact h.materialized

theorem mem_revokeGrants {p : GrantRow → Prop} [DecidablePred p] {g : GrantRow} (hg : g ∈ (d.revokeGrants p).grants)
    (hr : g.revoked = false) : g ∈ d.grants ∧ ¬p g := by
  obtain ⟨x, hx, ⟨-, rfl⟩ | ⟨hn, rfl⟩⟩ := mem_update.mp hg
  · cases hr
  · exact ⟨hx, fun hp => hn ⟨hr, hp⟩⟩

/-! ## Requests -/

theorem Current.saveRequestRow (h : Current d) {body projection sessionHash : String}
    (hr : saveRequestRow d body projection sessionHash = some d') : Current d' := by
  obtain ⟨w, -, -, -, hf, -, rfl⟩ := saveRequestRow_some hr
  refine ⟨{ h.keys with requests := h.keys.requests.snoc hf }, ?_, h.head, ?_, h.prepared, ?_, h.materialized⟩
  · intro k hk
    obtain ⟨v, hv, hv'⟩ := h.heads k hk
    exact ⟨v, List.mem_append_left _ hv, hv'⟩
  · intro g hg hr
    obtain ⟨v, hv, hv'⟩ := h.task g hg hr
    exact ⟨v, List.mem_append_left _ hv, hv'⟩
  · intro r hr
    obtain ⟨v, hv, hv'⟩ := h.bound r hr
    exact ⟨v, List.mem_append_left _ hv, hv'⟩

/-- A new head revokes the grants of the old one. -/
theorem Current.saveHead (h : Current d) {digest : String} (hr : saveHead d digest = some d') : Current d' := by
  obtain ⟨w, hw, hwd, ⟨hn, rfl⟩ | ⟨old, ho, hop, -, rfl⟩⟩ := saveHead_some h.keys.heads hr
  · refine ⟨{ h.keys with heads := h.keys.heads.snoc hn }, ?_, ?_, h.task, h.prepared, h.bound, h.materialized⟩
    · intro k hk
      rcases mem_snoc.mp hk with hk | rfl
      · exact h.heads k hk
      · exact ⟨w, hw, hwd, rfl⟩
    · intro g hg hr
      obtain ⟨k, hk, hk'⟩ := h.head g hg hr
      exact ⟨k, List.mem_append_left _ hk, hk'⟩
  · have hk : Keys { d with heads := replace HeadRow.place { old with revision := w.revision, digest } d.heads } :=
      { h.keys with heads := h.keys.heads.replace h.keys.heads ho rfl rfl }
    refine ⟨hk.revokeGrants _, ?_, ?_, ?_, ?_, h.bound, h.materialized⟩
    · intro k hk
      rcases (mem_replace HeadRow.place { old with revision := w.revision, digest } ho rfl).mp hk with rfl | ⟨hk, -⟩
      · exact ⟨w, hw, hwd, hop⟩
      · exact h.heads k hk
    · intro g hg hr
      obtain ⟨hg, hne⟩ := mem_revokeGrants hg hr
      obtain ⟨k, hk, hkd⟩ := h.head g hg hr
      by_cases he : k.place = old.place
      · cases h.keys.heads.eq hk ho he
        exact absurd hkd.symm hne
      · exact ⟨k, (mem_replace HeadRow.place { old with revision := w.revision, digest } ho rfl).mpr (.inr ⟨hk, he⟩), hkd⟩
    · intro g hg hr
      exact h.task g (mem_revokeGrants hg hr).1 hr
    · intro g hg hr
      exact h.prepared g (mem_revokeGrants hg hr).1 hr

/-- A request that no grant is for yet is bound to a preparation. -/
theorem Current.bindPreparation (h : Current d) {digest preparation : String}
    (hfree : ∀ g ∈ d.grants, g.revoked = false → g.requestDigest ≠ digest)
    (hr : bindPreparation d digest preparation = some d') : Current d' := by
  obtain ⟨t, -, -, -, ⟨w, hw, hwd, hwt⟩, hf, rfl⟩ := bindPreparation_some hr
  refine ⟨{ h.keys with requestPreparations := h.keys.requestPreparations.snoc hf }, h.heads, h.head, h.task, ?_, ?_,
    h.materialized⟩
  · intro g hg hr r hrp hrd
    rcases mem_snoc.mp hrp with hrp | rfl
    · exact h.prepared g hg hr r hrp hrd
    · exact absurd hrd.symm (hfree g hg hr)
  · intro r hrp
    rcases mem_snoc.mp hrp with hrp | rfl
    · exact h.bound r hrp
    · exact ⟨w, hw, hwd, hwt⟩

theorem Current.saveRequest (h : Current d) {body projection sessionHash : String} {preparation : Option String}
    (hr : saveRequest d body projection sessionHash preparation = some d') : Current d' := by
  obtain ⟨digest, d₁, d₂, hd, h₁, h₂, h₃⟩ := saveRequest_some hr
  have hc₁ := h.saveRequestRow h₁
  have hc₂ := hc₁.saveHead h₂
  rcases h₃ with rfl | ⟨p, h₃⟩
  · exact hc₂
  · refine hc₂.bindPreparation (fun g hg hr he => ?_) h₃
    -- The digest is new, and every grant is for a request that was there.
    obtain ⟨w, hwd, -, -, hf, -, rfl⟩ := saveRequestRow_some h₁
    have hg' : g ∈ d.grants := by
      obtain ⟨v, -, -, ⟨-, rfl⟩ | ⟨old, -, -, -, rfl⟩⟩ := saveHead_some hc₁.keys.heads h₂
      · exact hg
      · exact (mem_revokeGrants hg hr).1
    obtain ⟨v, hv, hvd, -⟩ := h.task g hg' hr
    exact hf v hv (hvd.trans (he.trans (Option.some.inj (hd.symm.trans hwd))))

/-! ## Grants -/

theorem Current.saveGrant (h : Current d) {body sessionHash : String} (hr : saveGrant d body sessionHash = some d') :
    Current d' := by
  obtain ⟨g, -, hf, -, -, ⟨w, hw, hlive, hwd, t, ht, hwt, htr⟩, rfl⟩ := saveGrant_some hr
  refine ⟨{ h.keys with grants := h.keys.grants.snoc hf }, h.heads, ?_, ?_, ?_, h.bound, h.materialized⟩
  · intro x hx hr
    rcases mem_snoc.mp hx with hx | rfl
    · exact h.head x hx hr
    · obtain ⟨⟨k, hk, hkd⟩, -⟩ := hlive
      exact ⟨k, hk, hkd.trans hwd⟩
  · intro x hx hr
    rcases mem_snoc.mp hx with hx | rfl
    · exact h.task x hx hr
    · exact ⟨w, hw, hwd, t, ht, hwt, htr⟩
  · intro x hx hr r hrp hrd u hu hur p hp hpu
    rcases mem_snoc.mp hx with hx | rfl
    · exact h.prepared x hx hr r hrp hrd u hu hur p hp hpu
    · obtain ⟨v, hv, hvd, hvr⟩ := h.bound r hrp
      cases h.keys.requests.eq hv hw (hvd.trans (hrd.trans hwd.symm))
      obtain ⟨-, -, -, -, k, -, ⟨hkr, -⟩, hnone | ⟨r', hrp', hrd', -, y, hy, hyr, -, q, hq, hqy, -, hqv, -⟩⟩ := hlive
      · have hk : k.repositoryId = r.repositoryId := Option.some.inj (hkr.symm.trans hvr)
        exact absurd (hur.trans hk.symm) (hnone u hu)
      · cases h.keys.requestPreparations.eq hrp' hrp (hrd'.trans hvd)
        cases h.keys.preparedTasks.eq hy hu (hyr.trans hur.symm)
        cases h.keys.preparations.eq hq hp (hqy.trans hpu.symm)
        exact hqv

theorem Current.revokeGrant (h : Current d) {id sessionHash : String} (hr : revokeGrant d id sessionHash = some d') :
    Current d' := by
  obtain ⟨g, hg, -, -, rfl⟩ := revokeGrant_some h.keys.grants hr
  have hk : Keys { d with grants := replace GrantRow.grantId g.revoke d.grants } :=
    { h.keys with grants := h.keys.grants.replace h.keys.grants hg rfl rfl }
  have hmem : ∀ x ∈ replace GrantRow.grantId g.revoke d.grants, x.revoked = false → x ∈ d.grants := by
    intro x hx hr
    rcases (mem_replace GrantRow.grantId g.revoke hg rfl).mp hx with rfl | ⟨hx, -⟩
    · cases hr
    · exact hx
  exact ⟨hk, h.heads, fun x hx hr => h.head x (hmem x hx hr) hr, fun x hx hr => h.task x (hmem x hx hr) hr,
    fun x hx hr => h.prepared x (hmem x hx hr) hr, h.bound, h.materialized⟩

/-! ## Task repositories and preparations -/

/-- A change of a task repository revokes the grants that are for it. -/
theorem Current.refreshTask (h : Current d) {t : TaskRow} (hr : refreshTask d t = some d') : Current d' := by
  have hk := (h.keys.refreshTask hr).1
  obtain ⟨-, rfl⟩ | ⟨u, hu, hup, rfl⟩ := refreshTask_some h.keys.tasks hr
  · refine ⟨hk, h.heads, h.head, ?_, h.prepared, h.bound, h.materialized⟩
    intro g hg hr
    obtain ⟨w, hw, hwd, k, hk, hk'⟩ := h.task g hg hr
    exact ⟨w, hw, hwd, k, List.mem_append_left _ hk, hk'⟩
  · refine ⟨hk, h.heads, ?_, ?_, ?_, h.bound, h.materialized⟩
    · intro g hg hr
      exact h.head g (mem_revokeGrants hg hr).1 hr
    · intro g hg hr
      obtain ⟨hg, hne⟩ := mem_revokeGrants hg hr
      obtain ⟨w, hw, hwd, k, hk, hkr, hkg⟩ := h.task g hg hr
      refine ⟨w, hw, hwd, k, (mem_replace TaskRow.repositoryId t hu hup.symm).mpr (.inr ⟨hk, fun he => ?_⟩), hkr, hkg⟩
      exact hne ⟨w, hw, hwd, he ▸ hkr⟩
    · intro g hg hr
      exact h.prepared g (mem_revokeGrants hg hr).1 hr

theorem Current.savePreparation (h : Current d) {p : PreparationRow} {sessionHash : String}
    (hr : savePreparation d p sessionHash = some d') : Current d' := by
  obtain ⟨-, hf, rfl⟩ := savePreparation_some hr
  refine ⟨{ h.keys with preparations := h.keys.preparations.snoc hf }, h.heads, h.head, h.task, ?_, h.bound, ?_⟩
  · intro g hg hr r hrp hrd t ht htr q hq hqt
    rcases mem_snoc.mp hq with hq | rfl
    · exact h.prepared g hg hr r hrp hrd t ht htr q hq hqt
    · obtain ⟨x, hx, hxt⟩ := h.materialized t ht
      exact absurd (hxt.trans hqt.symm) (hf x hx)
  · intro t ht
    obtain ⟨x, hx, hxt⟩ := h.materialized t ht
    exact ⟨x, List.mem_append_left _ hx, hxt⟩

/-- A preparation that leaves `verified` revokes the grants that rest on it. -/
theorem Current.transitionPreparation (h : Current d) {id body : String} {revision : Nat} {state : PreparationState}
    {evidence receipt : Option String} (hr : transitionPreparation d id revision body state evidence receipt = some d') :
    Current d' := by
  have hk := (h.keys.transitionPreparation hr).1
  obtain ⟨p, hp, hpi, e, rfl, hd⟩ := transitionPreparation_some h.keys.preparations hr
  have hmem := @mem_replace _ _ d.preparations p _ PreparationRow.operationId
    { p with state, revision := p.revision + 1, evidence, cleanupReceipt := receipt } hp rfl
  have hmat : ∀ t ∈ d.preparedTasks, ∃ q ∈ replace PreparationRow.operationId
      { p with state, revision := p.revision + 1, evidence, cleanupReceipt := receipt } d.preparations,
      q.operationId = t.preparationId := by
    intro t ht
    obtain ⟨x, hx, hxt⟩ := h.materialized t ht
    by_cases he : x.operationId = p.operationId
    · exact ⟨_, hmem.mpr (.inl rfl), he.symm.trans hxt⟩
    · exact ⟨x, hmem.mpr (.inr ⟨hx, he⟩), hxt⟩
  obtain ⟨hv, hv', rfl⟩ | ⟨hn, rfl⟩ := hd
  · refine ⟨hk, h.heads, ?_, ?_, ?_, h.bound, hmat⟩
    · intro g hg hr
      exact h.head g (mem_revokeGrants hg hr).1 hr
    · intro g hg hr
      exact h.task g (mem_revokeGrants hg hr).1 hr
    · intro g hg hr r hrp hrd t ht htr q hq hqt
      obtain ⟨hg, hne⟩ := mem_revokeGrants hg hr
      rcases hmem.mp hq with rfl | ⟨hq, -⟩
      · exact absurd ⟨r, hrp, hrd, t, ht, htr, hqt.symm.trans hpi⟩ hne
      · exact h.prepared g hg hr r hrp hrd t ht htr q hq hqt
  · refine ⟨hk, h.heads, h.head, h.task, ?_, h.bound, hmat⟩
    intro g hg hr r hrp hrd t ht htr q hq hqt
    rcases hmem.mp hq with rfl | ⟨hq, -⟩
    · have hpv := h.prepared g hg hr r hrp hrd t ht htr p hp hqt
      by_contra hs
      exact hn ⟨hpv, hs⟩
    · exact h.prepared g hg hr r hrp hrd t ht htr q hq hqt

theorem Current.materializePreparedTask (h : Current d) {id : String} {facts : TaskRow}
    (hr : materializePreparedTask d id facts = some d') : Current d' := by
  have hk : Keys d' := h.keys.run (b := .materializePreparedTask id facts) hr
  obtain ⟨p, hp, hpi, hv, k, t, -, hti, -, -, rfl⟩ := materializePreparedTask_some hr
  refine ⟨hk, h.heads, h.head, ?_, ?_, h.bound, ?_⟩
  · intro g hg hr
    obtain ⟨w, hw, hwd, u, hu, hu'⟩ := h.task g hg hr
    exact ⟨w, hw, hwd, u, List.mem_append_left _ hu, hu'⟩
  · intro g hg hr r hrp hrd u hu hur q hq hqu
    rcases mem_snoc.mp hu with hu | rfl
    · exact h.prepared g hg hr r hrp hrd u hu hur q hq hqu
    · cases h.keys.preparations.eq hp hq (hpi.trans (hti.symm.trans hqu.symm))
      exact hv
  · intro u hu
    rcases mem_snoc.mp hu with hu | rfl
    · exact h.materialized u hu
    · exact ⟨p, hp, hpi.trans hti.symm⟩

/-! ## Every batch -/

theorem Current.run (h : Current d) {b : Batch} (hr : b.run d = some d') : Current d' := by
  have hk := h.keys.run hr
  cases b with
  | saveRequest body projection sessionHash preparation => exact h.saveRequest hr
  | saveGrant body sessionHash => exact h.saveGrant hr
  | revokeGrant id sessionHash => exact h.revokeGrant hr
  | refreshTask t => exact h.refreshTask hr
  | savePreparation p sessionHash => exact h.savePreparation hr
  | transitionPreparation id revision body state evidence cleanupReceipt => exact h.transitionPreparation hr
  | materializePreparedTask id facts => exact h.materializePreparedTask hr
  | saveRun body actorExpires =>
    obtain ⟨r, -, -, -, -, rfl⟩ := saveRun_some hr
    exact h.same hk ⟨rfl, rfl, rfl, rfl, rfl, rfl, rfl⟩
  | saveCandidate body =>
    obtain ⟨c, -, -, -, rfl⟩ := saveCandidate_some hr
    exact h.same hk ⟨rfl, rfl, rfl, rfl, rfl, rfl, rfl⟩
  | saveApproval body projection sessionHash =>
    obtain ⟨a, -, -, -, rfl⟩ := saveApproval_some hr
    exact h.same hk ⟨rfl, rfl, rfl, rfl, rfl, rfl, rfl⟩
  | revokeRun id sessionHash =>
    obtain ⟨r, -, -, -, rfl⟩ := revokeRun_some h.keys.runs hr
    exact h.same hk ⟨rfl, rfl, rfl, rfl, rfl, rfl, rfl⟩
  | revokeApproval id sessionHash =>
    obtain ⟨a, -, -, -, rfl⟩ := revokeApproval_some h.keys.approvals hr
    exact h.same hk ⟨rfl, rfl, rfl, rfl, rfl, rfl, rfl⟩
  | prepareOperation body =>
    obtain ⟨o, -, -, -, -, -, -, rfl⟩ := prepareOperation_some hr
    exact h.same hk ⟨rfl, rfl, rfl, rfl, rfl, rfl, rfl⟩
  | dispatch id revision body =>
    obtain ⟨o, -, -, -, -, c, t, -, -, -, -, -, -, -, -, rfl⟩ := dispatch_some h.keys.operations hr
    exact h.same hk ⟨rfl, rfl, rfl, rfl, rfl, rfl, rfl⟩
  | recordOutcome id revision body after receipt before =>
    obtain ⟨o, -, -, -, -, o', -, -, e, rfl, ⟨-, rfl⟩ | ⟨-, rfl⟩⟩ := recordOutcome_some h.keys.operations hr
    · exact h.same hk ⟨rfl, rfl, rfl, rfl, rfl, rfl, rfl⟩
    · exact h.same hk ⟨rfl, rfl, rfl, rfl, rfl, rfl, rfl⟩
  | cancelOperation id revision body sessionHash =>
    obtain ⟨o, -, -, -, -, rfl⟩ := cancelOperation_some h.keys.operations hr
    exact h.same hk ⟨rfl, rfl, rfl, rfl, rfl, rfl, rfl⟩
  | refreshTarget t =>
    obtain ⟨-, rfl⟩ | ⟨u, -, -, -, rfl⟩ := refreshTarget_some h.keys.targets hr
    · exact h.same hk ⟨rfl, rfl, rfl, rfl, rfl, rfl, rfl⟩
    · exact h.same hk ⟨rfl, rfl, rfl, rfl, rfl, rfl, rfl⟩

theorem Current.drift (h : Current d) (hd : store.drift d d') : Current d' := by
  have hk := h.keys.drift hd
  obtain ⟨around, rfl⟩ := hd
  exact h.same hk ⟨rfl, rfl, rfl, rfl, rfl, rfl, rfl⟩

end Mikaki.WorkStore
