import Mikaki.Work.Dispatch

/-!
# What is dispatched is what was approved and prepared

Rows are never removed and a revocation is never undone (`Later`). `Bound` ties
each row to what was presented when it was made; from both, a dispatch that
succeeds shows exactly that again.
-/

namespace Mikaki

open Checks Table

namespace Dispatch

/-! ## Nothing is lost -/

def ApprovalRow.Later (r r' : ApprovalRow) : Prop := r.approval.Later r'.approval ∧ r'.created = r.created

def OperationRow.Later (r r' : OperationRow) : Prop :=
  r'.operation.id = r.operation.id ∧ r'.operation.effect = r.operation.effect ∧ r'.prepared = r.prepared

structure Later (s t : Store) : Prop where
  grants : Grows Grant.Later s.grants t.grants
  runs : Grows Run.Later s.runs t.runs
  candidates : Grows Eq s.candidates t.candidates
  approvals : Grows ApprovalRow.Later s.approvals t.approvals
  operations : Grows OperationRow.Later s.operations t.operations

theorem ApprovalRow.Later.refl (r : ApprovalRow) : r.Later r := ⟨.inl rfl, rfl⟩

theorem OperationRow.Later.refl (r : OperationRow) : r.Later r := ⟨rfl, rfl, rfl⟩

theorem Later.refl (s : Store) : Later s s :=
  ⟨.refl (fun _ => .inl rfl) _, .refl (fun _ => .inl rfl) _, .refl (fun _ => rfl) _, .refl .refl _, .refl .refl _⟩

theorem Later.trans {s t u : Store} (h₁ : Later s t) (h₂ : Later t u) : Later s u where
  grants := h₁.grants.trans Grant.Later.trans h₂.grants
  runs := h₁.runs.trans Run.Later.trans h₂.runs
  candidates := h₁.candidates.trans Eq.trans h₂.candidates
  approvals := h₁.approvals.trans (fun a b => ⟨a.1.trans b.1, b.2.trans a.2⟩) h₂.approvals
  operations := h₁.operations.trans
    (fun a b => ⟨b.1.trans a.1, b.2.1.trans a.2.1, b.2.2.trans a.2.2⟩) h₂.operations

theorem Change.later {s t : Store} (h : Change s t) : Later s t := by
  have hs := Later.refl s
  cases h with
  | same => exact hs
  | grant h => exact { hs with grants := .put_new (fun _ => .inl rfl) h }
  | run h => exact { hs with runs := .put_new (fun _ => .inl rfl) h }
  | candidate h => exact { hs with candidates := .put_new (fun _ => rfl) h }
  | approve _ _ h => exact { hs with approvals := .put_new .refl h }
  | prepare _ _ _ h => exact { hs with operations := .put_new .refl h }
  | moved h ho => exact { hs with operations := .put_old .refl h ⟨ho.1, ho.2, rfl⟩ }
  | revokeApproval h ha => exact { hs with approvals := .put_old .refl h ⟨ha, rfl⟩ }
  | revokeGrant h hg => exact { hs with grants := .put_old (fun _ => .inl rfl) h hg }
  | revokeRun h hn => exact { hs with runs := .put_old (fun _ => .inl rfl) h hn }

theorem run_later (s : Store) (cs : List Call) : Later s (run s cs) :=
  Calls.run_rel (I := fun _ => True) Later.refl Later.trans (fun _ _ _ => trivial)
    (fun c s _ => (step_change c s).later) trivial cs

/-! ## What binds a row to its presentation -/

structure ApprovalBound (s : Store) (k : Id) (r : ApprovalRow) : Prop where
  key : r.approval.id = k
  unrevoked : r.approval.revoked = false → r.approval.revision = r.created.approvalRevision
  epochs : r.approval.policyRevision = r.created.policyRevision ∧ r.approval.ownerEpoch = r.created.ownerEpoch
  producer : r.approval.producer.grantRevision = r.created.grantRevision ∧
    r.approval.producer.runRevision = r.created.runRevision
  target : r.approval.targetRevision = r.created.targetRevision
  head : ∃ c, s.candidates r.approval.candidate = some c ∧ c.expectedHead = r.created.head

structure OperationBound (s : Store) (k : Id) (r : OperationRow) : Prop where
  key : r.operation.id = k
  approval : r.operation.effect.approvalRevision = r.prepared.approvalRevision
  epochs : r.operation.effect.policyRevision = r.prepared.policyRevision ∧
    r.operation.effect.ownerEpoch = r.prepared.ownerEpoch
  producer : r.operation.effect.producer.grantRevision = r.prepared.grantRevision ∧
    r.operation.effect.producer.runRevision = r.prepared.runRevision
  target : r.operation.effect.targetRevision = r.prepared.targetRevision ∧
    r.operation.effect.expectedHead = r.prepared.head
  grant : ∃ g, s.grants r.operation.effect.producer.grant = some g ∧ r.prepared.grantRevision ≤ g.revision
  run : ∃ n, s.runs r.operation.effect.producer.run = some n ∧ r.prepared.runRevision ≤ n.revision

structure Bound (s : Store) : Prop where
  grants : All (fun k g => g.id = k) s.grants
  runs : All (fun k n => n.id = k) s.runs
  candidates : All (fun k c => c.digest = k) s.candidates
  approvals : All (ApprovalBound s) s.approvals
  operations : All (OperationBound s) s.operations

theorem bound_empty : Bound .empty := ⟨.none _, .none _, .none _, .none _, .none _⟩

theorem Grant.Later.revision_le {g g' : Grant} (h : g.Later g') : g.revision ≤ g'.revision := by
  rcases h with rfl | ⟨-, rfl⟩
  · exact Nat.le_refl _
  · exact Nat.le_succ _

theorem Run.Later.revision_le {n n' : Run} (h : n.Later n') : n.revision ≤ n'.revision := by
  rcases h with rfl | ⟨-, rfl⟩
  · exact Nat.le_refl _
  · exact Nat.le_succ _

theorem Grant.Later.revision_lt {g g' : Grant} (h : g.Later g') (hr : g.revoked = false) (hr' : g'.revoked = true) :
    g.revision < g'.revision := by
  rcases h with rfl | ⟨-, rfl⟩
  · rw [hr] at hr'; cases hr'
  · exact Nat.lt_succ_self _

theorem Run.Later.revision_lt {n n' : Run} (h : n.Later n') (hr : n.revoked = false) (hr' : n'.revoked = true) :
    n.revision < n'.revision := by
  rcases h with rfl | ⟨-, rfl⟩
  · rw [hr] at hr'; cases hr'
  · exact Nat.lt_succ_self _

theorem ApprovalBound.later {s t : Store} {k : Id} {r : ApprovalRow} (h : ApprovalBound s k r) (hl : Later s t) :
    ApprovalBound t k r := by
  obtain ⟨c, hc, he⟩ := h.head
  obtain ⟨_, hc, rfl⟩ := hl.candidates _ _ hc
  exact { h with head := ⟨_, hc, he⟩ }

theorem OperationBound.later {s t : Store} {k : Id} {r : OperationRow} (h : OperationBound s k r) (hl : Later s t) :
    OperationBound t k r := by
  obtain ⟨g, hg, hgr⟩ := h.grant
  obtain ⟨n, hn, hnr⟩ := h.run
  obtain ⟨g', hg', hgl⟩ := hl.grants _ _ hg
  obtain ⟨n', hn', hnl⟩ := hl.runs _ _ hn
  exact { h with
    grant := ⟨g', hg', Nat.le_trans hgr (Grant.Later.revision_le hgl)⟩
    run := ⟨n', hn', Nat.le_trans hnr (Run.Later.revision_le hnl)⟩ }

theorem context_some {s : Store} {p : Place} {c : AdoptionContext} (h : s.context p = some c) :
    s.candidates p.candidate = some c.candidate ∧ s.grants p.grant = some c.grant ∧ s.runs p.run = some c.run ∧
      c.target = p.target ∧ c.environment = p.environment := by
  unfold Store.context at h
  split at h
  · rename_i hc hg hn
    cases h; exact ⟨hc, hg, hn, rfl, rfl⟩
  · cases h

/-- A new approval shows what it was made under. -/
theorem approve_bound {s : Store} {p : Place} {c : AdoptionContext} {id : String} {reviewed : Digest}
    {session : OwnerSession} {x : Nat} {a : CodeApproval} (hb : Bound s) (hc : s.context p = some c)
    (ha : CodeApproval.approve id reviewed session c x = .ok a) : ApprovalBound s a.id ⟨a, present a c⟩ := by
  obtain ⟨hs, ht, -, hd, -, -, -, he⟩ := CodeApproval.approve_ok.mp ha
  obtain ⟨-, -, -, -, hepoch⟩ := Environment.checkOwner_ok.mp (OwnerSession.check_ok.mp hs).1
  obtain ⟨-, -, -, -, -, hhead⟩ := AdoptionContext.checkTarget_ok.mp ht
  obtain ⟨hcand, -⟩ := context_some hc
  have hk : c.candidate.digest = p.candidate := hb.candidates _ _ hcand
  refine ⟨rfl, fun _ => rfl, ?_, ?_, ?_, ?_⟩ <;> rw [he]
  · exact ⟨rfl, hepoch.symm⟩
  · exact ⟨rfl, rfl⟩
  · rfl
  · exact ⟨c.candidate, by rw [← hd, hk, hcand], hhead.symm⟩

theorem prepare_bound {s : Store} {p : Place} {c : AdoptionContext} {row : ApprovalRow} {action id : String}
    {o : ExternalOperation} (hb : Bound s) (hc : s.context p = some c)
    (ho : row.approval.prepareOperation action id c = .ok o) : OperationBound s o.id ⟨o, present row.approval c⟩ := by
  obtain ⟨hk, -, he⟩ := CodeApproval.prepareOperation_ok.mp ho
  obtain ⟨-, hown, -, -, hpol, -, -, -, hp⟩ := CodeApproval.check_ok.mp hk
  obtain ⟨-, -, -, -, hepoch⟩ := Environment.checkOwner_ok.mp hown
  obtain ⟨-, hg, hn, -, -⟩ := context_some hc
  have hgk : c.grant.id = p.grant := hb.grants _ _ hg
  have hnk : c.run.id = p.run := hb.runs _ _ hn
  refine ⟨rfl, ?_, ?_, ?_, ?_, ?_, ?_⟩ <;> rw [he]
  · rfl
  · exact ⟨hpol.symm, hepoch.symm⟩
  · show row.approval.producer.grantRevision = _ ∧ row.approval.producer.runRevision = _
    rw [hp]; exact ⟨rfl, rfl⟩
  · exact ⟨rfl, rfl⟩
  · show ∃ g, s.grants row.approval.producer.grant = some g ∧ _
    rw [hp]; exact ⟨c.grant, (congrArg s.grants hgk).trans hg, Nat.le_refl _⟩
  · show ∃ n, s.runs row.approval.producer.run = some n ∧ _
    rw [hp]; exact ⟨c.run, (congrArg s.runs hnk).trans hn, Nat.le_refl _⟩

theorem Change.bound {s t : Store} (h : Change s t) (hb : Bound s) : Bound t := by
  have hl := h.later
  have ha : All (ApprovalBound t) s.approvals := hb.approvals.mono fun _ _ h => h.later hl
  have ho : All (OperationBound t) s.operations := hb.operations.mono fun _ _ h => h.later hl
  cases h with
  | same => exact hb
  | grant => exact { hb with grants := hb.grants.put rfl, approvals := ha, operations := ho }
  | run => exact { hb with runs := hb.runs.put rfl, approvals := ha, operations := ho }
  | candidate => exact { hb with candidates := hb.candidates.put rfl, approvals := ha, operations := ho }
  | approve hc h => exact { hb with approvals := ha.put ((approve_bound hb hc h).later hl), operations := ho }
  | prepare _ hc h =>
    exact { hb with approvals := ha, operations := ho.put ((prepare_bound hb hc h).later hl) }
  | @moved k op o h he =>
    refine { hb with approvals := ha, operations := ho.put ?_ }
    have hop := ho _ _ h
    exact ⟨he.1.trans hop.key, by rw [he.2]; exact hop.approval, by rw [he.2]; exact hop.epochs,
      by rw [he.2]; exact hop.producer, by rw [he.2]; exact hop.target, by rw [he.2]; exact hop.grant,
      by rw [he.2]; exact hop.run⟩
  | @revokeApproval k row a h hl' =>
    have hr := ha _ _ h
    refine { hb with approvals := ha.put ?_, operations := ho }
    rcases hl' with rfl | ⟨-, rfl⟩
    · exact hr
    · exact { hr with unrevoked := fun h => by cases h }
  | revokeGrant h hg =>
    refine { hb with grants := hb.grants.put ?_, approvals := ha, operations := ho }
    have hk := hb.grants _ _ h
    rcases hg with rfl | ⟨-, rfl⟩ <;> exact hk
  | revokeRun h hn =>
    refine { hb with runs := hb.runs.put ?_, approvals := ha, operations := ho }
    have hk := hb.runs _ _ h
    rcases hn with rfl | ⟨-, rfl⟩ <;> exact hk

theorem run_bound (cs : List Call) : Bound (run .empty cs) :=
  Calls.run_invariant (P := Bound) (fun c s h => (step_change c s).bound h) bound_empty cs

/-! ## Dispatch -/

/-- A dispatch that succeeds shows what its approval was created under and its operation prepared under. -/
theorem dispatch_presents {s : Store} {a o : Id} {p : Place} (hb : Bound s)
    (h : (step (.dispatch a o p) s).1 = some (.ok ())) :
    ∃ row op c, s.approvals a = some row ∧ s.operations o = some op ∧ s.context p = some c ∧
      row.approval.revoked = false ∧ c.environment.now < row.approval.expiresAt ∧
      present row.approval c = row.created ∧ present row.approval c = op.prepared ∧
      op.operation.effect = row.approval.effect c ∧ row.approval.producer = .current c.grant c.run := by
  rw [step, Store.dispatch] at h
  split at h
  · rename_i row op c hr ho hc
    have hrow := hb.approvals _ _ hr
    have hop := hb.operations _ _ ho
    obtain ⟨-, hk, he, -⟩ | ⟨e, hd⟩ := row.approval.dispatch_cases op.operation c
    · obtain ⟨-, hown, hrev, hnow, hpol, ht, ⟨-, hcd⟩, htr, hprod⟩ := CodeApproval.check_ok.mp hk
      obtain ⟨-, -, -, -, hepoch⟩ := Environment.checkOwner_ok.mp hown
      obtain ⟨-, -, -, -, -, hhead⟩ := AdoptionContext.checkTarget_ok.mp ht
      obtain ⟨hcand, -⟩ := context_some hc
      obtain ⟨c', hc', hexp⟩ := hrow.head
      have hcc : c' = c.candidate := by
        have hk' : c.candidate.digest = p.candidate := hb.candidates _ _ hcand
        rw [← hcd, hk', hcand] at hc'
        exact (Option.some.inj hc').symm
      have h₁ : present row.approval c = row.created := by
        obtain ⟨hpg, hpr⟩ := hrow.producer
        rw [hprod] at hpg hpr
        change c.grant.revision = _ at hpg
        change c.run.revision = _ at hpr
        rw [present, hrow.unrevoked hrev, ← htr, hrow.target, hhead, ← hcc, hexp, hpol, hrow.epochs.1, hepoch,
          hrow.epochs.2, hpg, hpr]
      refine ⟨row, op, c, hr, ho, hc, hrev, hnow, h₁, ?_, he, hprod⟩
      obtain ⟨hpg, hpr⟩ := hop.producer
      have h₂ := hop.approval; have h₃ := hop.epochs; have h₄ := hop.target
      rw [he] at hpg hpr h₂ h₃ h₄
      simp only [CodeApproval.effect, hprod] at hpg hpr h₂ h₃ h₄
      change c.grant.revision = _ at hpg
      change c.run.revision = _ at hpr
      rw [present, h₂, h₄.1, h₄.2, hpol, h₃.1, hepoch, h₃.2, hpg, hpr]
    · rw [hd] at h; cases h
  · cases h

/-- Between `s` and `t` the approval, the grant or the run of the effect was revoked. -/
def RevokedBetween (s t : Store) (e : Effect) : Prop :=
  (∃ row, t.approvals e.approval = some row ∧ row.approval.revoked = true) ∨
  (∃ g g', s.grants e.producer.grant = some g ∧ g.revoked = false ∧ t.grants e.producer.grant = some g' ∧
    g'.revoked = true) ∨
  (∃ n n', s.runs e.producer.run = some n ∧ n.revoked = false ∧ t.runs e.producer.run = some n' ∧ n'.revoked = true)

/-- The place shows another target revision, head, policy or owner epoch than the operation was prepared under. -/
def Moved (p : Place) (r : Presented) : Prop :=
  p.target.revision ≠ r.targetRevision ∨ p.target.head ≠ r.head ∨ p.environment.policyRevision ≠ r.policyRevision ∨
    p.environment.owner.epoch ≠ r.ownerEpoch

theorem not_moved {s : Store} {a o : Id} {p : Place} {op : OperationRow} (hb : Bound s)
    (ho : s.operations o = some op) (h : (step (.dispatch a o p) s).1 = some (.ok ())) : ¬Moved p op.prepared := by
  obtain ⟨row, op', c, -, ho', hc, -, -, -, hp, -⟩ := dispatch_presents hb h
  cases ho.symm.trans ho'
  obtain ⟨-, -, -, ht, he⟩ := context_some hc
  rw [Moved, ← hp, ← ht, ← he]
  exact fun h => by rcases h with h | h | h | h <;> exact h rfl

/-- Once revoked between two states, never dispatched after. -/
theorem not_revoked {s t u : Store} {a o : Id} {p : Place} {op : OperationRow} (hs : Bound s) (hu : Bound u)
    (hst : Later s t) (htu : Later t u) (ho : s.operations o = some op)
    (h : (step (.dispatch a o p) u).1 = some (.ok ())) : ¬RevokedBetween s t op.operation.effect := by
  obtain ⟨row, op', c, hr, ho', hc, hrev, -, -, hp, he, hprod⟩ := dispatch_presents hu h
  obtain ⟨_, ho'', -, heff, hprep⟩ := (hst.trans htu).operations _ _ ho
  cases ho'.symm.trans ho''
  obtain ⟨-, hg, hn, -, -⟩ := context_some hc
  have hgk : c.grant.id = p.grant := hu.grants _ _ hg
  have hnk : c.run.id = p.run := hu.runs _ _ hn
  have hpe : op.operation.effect.producer = .current c.grant c.run := by rw [← heff, he]; exact hprod
  have hbo := hs.operations _ _ ho
  rintro (⟨row', hr', hrev'⟩ | ⟨g, g', hg₁, hgr, hg₂, hgr'⟩ | ⟨n, n', hn₁, hnr, hn₂, hnr'⟩)
  · have hak : op.operation.effect.approval = a := by
      rw [← heff, he]; exact (hu.approvals _ _ hr).key
    obtain ⟨row'', hr'', ⟨hl, -⟩⟩ := htu.approvals _ _ hr'
    rw [hak] at hr''
    cases hr.symm.trans hr''
    rcases hl with hl | ⟨hl, -⟩
    · rw [hl, hrev'] at hrev; cases hrev
    · rw [hrev'] at hl; cases hl
  · obtain ⟨_, hg₃, hl₁⟩ := hst.grants _ _ hg₁
    cases hg₂.symm.trans hg₃
    obtain ⟨g₄, hg₄, hl₂⟩ := htu.grants _ _ hg₂
    rw [hpe, show (ProducerRevision.current c.grant c.run).grant = p.grant from hgk, hg] at hg₄
    cases hg₄
    obtain ⟨g₀, hg₀, hle⟩ := hbo.grant
    cases hg₁.symm.trans hg₀
    have hrv : op.prepared.grantRevision = c.grant.revision := by rw [← hprep, ← hp]; rfl
    have := Grant.Later.revision_lt hl₁ hgr hgr'
    have := Grant.Later.revision_le hl₂
    omega
  · obtain ⟨_, hn₃, hl₁⟩ := hst.runs _ _ hn₁
    cases hn₂.symm.trans hn₃
    obtain ⟨n₄, hn₄, hl₂⟩ := htu.runs _ _ hn₂
    rw [hpe, show (ProducerRevision.current c.grant c.run).run = p.run from hnk, hn] at hn₄
    cases hn₄
    obtain ⟨n₀, hn₀, hle⟩ := hbo.run
    cases hn₁.symm.trans hn₀
    have hrv : op.prepared.runRevision = c.run.revision := by rw [← hprep, ← hp]; rfl
    have := Run.Later.revision_lt hl₁ hnr hnr'
    have := Run.Later.revision_le hl₂
    omega

/-- Dispatch soundness over every run `cs` and its continuations `ds` and `es`. -/
theorem dispatch_sound (cs ds es : List Call) :
    (∀ a o p, (step (.dispatch a o p) (run .empty cs)).1 = some (.ok ()) →
      ∃ row op c, (run .empty cs).approvals a = some row ∧ (run .empty cs).operations o = some op ∧
        (run .empty cs).context p = some c ∧ row.approval.revoked = false ∧
        c.environment.now < row.approval.expiresAt ∧ present row.approval c = row.created ∧
        present row.approval c = op.prepared) ∧
    (∀ a o p op, (run .empty cs).operations o = some op →
      RevokedBetween (run .empty cs) (run .empty (cs ++ ds)) op.operation.effect ∨ Moved p op.prepared →
      (step (.dispatch a o p) (run .empty (cs ++ ds ++ es))).1 ≠ some (.ok ())) := by
  refine ⟨fun a o p h => ?_, fun a o p op ho hc h => ?_⟩
  · obtain ⟨row, op, c, hr, ho, hc, hrev, hnow, h₁, h₂, -⟩ := dispatch_presents (run_bound cs) h
    exact ⟨row, op, c, hr, ho, hc, hrev, hnow, h₁, h₂⟩
  · have hst : Later (run .empty cs) (run .empty (cs ++ ds)) := by
      rw [run, Calls.run_append]; exact run_later _ ds
    have htu : Later (run .empty (cs ++ ds)) (run .empty (cs ++ ds ++ es)) := by
      rw [run, Calls.run_append _ _ (cs ++ ds)]; exact run_later _ es
    rcases hc with hc | hc
    · exact not_revoked (run_bound cs) (run_bound _) hst htu ho h hc
    · obtain ⟨op', ho', -, -, hp⟩ := (hst.trans htu).operations _ _ ho
      exact not_moved (run_bound _) ho' h (hp ▸ hc)

end Dispatch

end Mikaki
