import Mikaki.Store.Authority

/-!
# Authority that was superseded or withdrawn

Any number of callers, with any programs and any values bound to the batches
they send.
-/

namespace Mikaki.WorkStore

open Concurrent Rows Transactions

/-! ## Rows that are revoked once -/

def GrantRow.Later (g g' : GrantRow) : Prop := g' = g ∨ (g.revision = 1 ∧ g.revoked = false ∧ g' = g.revoke)
def RunRow.Later (r r' : RunRow) : Prop := r' = r ∨ (r.revision = 1 ∧ r.revoked = false ∧ r' = r.revoke)
def ApprovalRow.Later (a a' : ApprovalRow) : Prop := a' = a ∨ (a.revision = 1 ∧ a.revoked = false ∧ a' = a.revoke)

theorem GrantRow.Later.trans {g g' g'' : GrantRow} (h : g.Later g') (h' : g'.Later g'') : g.Later g'' := by
  rcases h with rfl | ⟨hr, hf, rfl⟩
  · exact h'
  · rcases h' with rfl | ⟨-, hf', -⟩
    · exact .inr ⟨hr, hf, rfl⟩
    · cases hf'

theorem RunRow.Later.trans {r r' r'' : RunRow} (h : r.Later r') (h' : r'.Later r'') : r.Later r'' := by
  rcases h with rfl | ⟨hr, hf, rfl⟩
  · exact h'
  · rcases h' with rfl | ⟨-, hf', -⟩
    · exact .inr ⟨hr, hf, rfl⟩
    · cases hf'

theorem ApprovalRow.Later.trans {a a' a'' : ApprovalRow} (h : a.Later a') (h' : a'.Later a'') : a.Later a'' := by
  rcases h with rfl | ⟨hr, hf, rfl⟩
  · exact h'
  · rcases h' with rfl | ⟨-, hf', -⟩
    · exact .inr ⟨hr, hf, rfl⟩
    · cases hf'

/-- How the three tables change. -/
structure Withdrawn (d d' : Db) : Prop where
  grants : Evolves GrantRow.Later (fun g => g.revision = 1 ∧ g.revoked = false) d.grants d'.grants
  runs : Evolves RunRow.Later (fun r => r.revision = 1 ∧ r.revoked = false) d.runs d'.runs
  approvals : Evolves ApprovalRow.Later (fun a => a.revision = 1 ∧ a.revoked = false) d.approvals d'.approvals

/-- Every row is in one of its two states. -/
structure Standings (d : Db) : Prop where
  grants : ∀ g ∈ d.grants, standing g.revision g.revoked
  runs : ∀ r ∈ d.runs, standing r.revision r.revoked
  approvals : ∀ a ∈ d.approvals, standing a.revision a.revoked

variable {d d' : Db}

theorem Withdrawn.same (hg : d'.grants = d.grants) (hr : d'.runs = d.runs) (ha : d'.approvals = d.approvals) :
    Withdrawn d d' := by
  refine ⟨?_, ?_, ?_⟩
  · rw [hg]; exact .refl fun _ => .inl rfl
  · rw [hr]; exact .refl fun _ => .inl rfl
  · rw [ha]; exact .refl fun _ => .inl rfl

theorem Withdrawn.refl (d : Db) : Withdrawn d d := .same rfl rfl rfl

theorem standing.live {revision : Nat} {revoked : Bool} (h : standing revision revoked) (hr : revoked = false) :
    revision = 1 := by
  rcases h with ⟨h, -⟩ | ⟨-, h⟩
  · exact h
  · rw [hr] at h; cases h

/-- A trigger revokes what is not revoked. -/
theorem Withdrawn.revokeGrants (hs : ∀ g ∈ d.grants, standing g.revision g.revoked) (p : GrantRow → Prop)
    [DecidablePred p] {e : Db} (hg : e.grants = d.grants) (hr : e.runs = d.runs) (ha : e.approvals = d.approvals) :
    Withdrawn d (e.revokeGrants p) := by
  refine ⟨?_, ?_, ?_⟩
  · show Evolves _ _ d.grants (update _ _ e.grants)
    rw [hg]
    exact .update (fun _ => .inl rfl) fun g hgm hp => .inr ⟨(hs g hgm).live hp.1, hp.1, rfl⟩
  · show Evolves _ _ d.runs e.runs
    rw [hr]
    exact .refl fun _ => .inl rfl
  · show Evolves _ _ d.approvals e.approvals
    rw [ha]
    exact .refl fun _ => .inl rfl

/-- What a batch does to the heads, the candidates and what can be revoked. -/
theorem run_cases (hk : Keys d) (hs : Standings d) {b : Batch} (hr : b.run d = some d') :
    ((∃ body projection sessionHash preparation, b = .saveRequest body projection sessionHash preparation) ∨
      d'.heads = d.heads) ∧
    ((∃ body, b = .saveCandidate body) ∨ d'.candidates = d.candidates) ∧ Withdrawn d d' := by
  cases b with
  | saveRequest body projection sessionHash preparation =>
    refine ⟨.inl ⟨body, projection, sessionHash, preparation, rfl⟩, ?_⟩
    obtain ⟨digest, d₁, d₂, -, h₁, h₂, h₃⟩ := saveRequest_some hr
    obtain ⟨w, -, -, -, hf, -, rfl⟩ := saveRequestRow_some h₁
    have hd₂ : d₂.candidates = d.candidates ∧ Withdrawn d d₂ := by
      obtain ⟨v, -, -, ⟨-, rfl⟩ | ⟨old, -, -, -, rfl⟩⟩ := saveHead_some (d := { d with requests := d.requests ++ [w] }) hk.heads h₂
      · exact ⟨rfl, .same rfl rfl rfl⟩
      · exact ⟨rfl, Withdrawn.revokeGrants hs.grants _ rfl rfl rfl⟩
    rcases h₃ with rfl | ⟨p, h₃⟩
    · exact ⟨.inr hd₂.1, hd₂.2⟩
    · obtain ⟨t, -, -, -, -, -, rfl⟩ := bindPreparation_some h₃
      exact ⟨.inr hd₂.1, hd₂.2.grants, hd₂.2.runs, hd₂.2.approvals⟩
  | saveGrant body sessionHash =>
    obtain ⟨g, -, -, hg, hg', -, rfl⟩ := saveGrant_some hr
    exact ⟨.inr rfl, .inr rfl, { Withdrawn.refl d with grants := .snoc (fun _ => .inl rfl) ⟨hg, hg'⟩ }⟩
  | saveRun body actorExpires =>
    obtain ⟨r, -, hn, hn', -, rfl⟩ := saveRun_some hr
    exact ⟨.inr rfl, .inr rfl, { Withdrawn.refl d with runs := .snoc (fun _ => .inl rfl) ⟨hn, hn'⟩ }⟩
  | saveCandidate body =>
    obtain ⟨c, -, -, -, rfl⟩ := saveCandidate_some hr
    exact ⟨.inr rfl, .inl ⟨body, rfl⟩, .same rfl rfl rfl⟩
  | saveApproval body projection sessionHash =>
    obtain ⟨a, -, ha, ha', rfl⟩ := saveApproval_some hr
    exact ⟨.inr rfl, .inr rfl, { Withdrawn.refl d with approvals := .snoc (fun _ => .inl rfl) ⟨ha, ha'⟩ }⟩
  | revokeGrant id sessionHash =>
    obtain ⟨g, hg, -, hl, rfl⟩ := revokeGrant_some hk.grants hr
    refine ⟨.inr rfl, .inr rfl, { Withdrawn.refl d with grants := .replace (fun _ => .inl rfl) hk.grants hg rfl ?_ }⟩
    exact .inr ⟨(hs.grants g hg).live hl, hl, rfl⟩
  | revokeRun id sessionHash =>
    obtain ⟨n, hn, -, hl, rfl⟩ := revokeRun_some hk.runs hr
    refine ⟨.inr rfl, .inr rfl, { Withdrawn.refl d with runs := .replace (fun _ => .inl rfl) hk.runs hn rfl ?_ }⟩
    exact .inr ⟨(hs.runs n hn).live hl, hl, rfl⟩
  | revokeApproval id sessionHash =>
    obtain ⟨a, ha, -, hl, rfl⟩ := revokeApproval_some hk.approvals hr
    refine ⟨.inr rfl, .inr rfl, { Withdrawn.refl d with approvals := .replace (fun _ => .inl rfl) hk.approvals ha rfl ?_ }⟩
    exact .inr ⟨(hs.approvals a ha).live hl, hl, rfl⟩
  | prepareOperation body =>
    obtain ⟨o, -, -, -, -, -, -, rfl⟩ := prepareOperation_some hr
    exact ⟨.inr rfl, .inr rfl, .same rfl rfl rfl⟩
  | dispatch id revision body =>
    obtain ⟨o, -, -, -, -, c, t, -, -, -, -, -, -, -, -, rfl⟩ := dispatch_some hk.operations hr
    exact ⟨.inr rfl, .inr rfl, .same rfl rfl rfl⟩
  | recordOutcome id revision body after receipt before =>
    obtain ⟨o, -, -, -, -, o', -, -, e, rfl, ⟨-, rfl⟩ | ⟨-, rfl⟩⟩ := recordOutcome_some hk.operations hr
    · exact ⟨.inr rfl, .inr rfl, .same rfl rfl rfl⟩
    · exact ⟨.inr rfl, .inr rfl, .same rfl rfl rfl⟩
  | cancelOperation id revision body sessionHash =>
    obtain ⟨o, -, -, -, -, rfl⟩ := cancelOperation_some hk.operations hr
    exact ⟨.inr rfl, .inr rfl, .same rfl rfl rfl⟩
  | refreshTarget t =>
    obtain ⟨-, rfl⟩ | ⟨u, -, -, -, rfl⟩ := refreshTarget_some hk.targets hr
    · exact ⟨.inr rfl, .inr rfl, .same rfl rfl rfl⟩
    · exact ⟨.inr rfl, .inr rfl, .same rfl rfl rfl⟩
  | refreshTask t =>
    obtain ⟨-, rfl⟩ | ⟨u, -, -, rfl⟩ := refreshTask_some hk.tasks hr
    · exact ⟨.inr rfl, .inr rfl, .same rfl rfl rfl⟩
    · exact ⟨.inr rfl, .inr rfl, Withdrawn.revokeGrants hs.grants _ rfl rfl rfl⟩
  | savePreparation p sessionHash =>
    obtain ⟨-, -, rfl⟩ := savePreparation_some hr
    exact ⟨.inr rfl, .inr rfl, .same rfl rfl rfl⟩
  | transitionPreparation id revision body state evidence cleanupReceipt =>
    obtain ⟨p, -, -, e, rfl, ⟨-, -, rfl⟩ | ⟨-, rfl⟩⟩ := transitionPreparation_some hk.preparations hr
    · exact ⟨.inr rfl, .inr rfl, Withdrawn.revokeGrants hs.grants _ rfl rfl rfl⟩
    · exact ⟨.inr rfl, .inr rfl, .same rfl rfl rfl⟩
  | materializePreparedTask id facts =>
    obtain ⟨p, -, -, -, k, t, -, -, -, -, rfl⟩ := materializePreparedTask_some hr
    exact ⟨.inr rfl, .inr rfl, .same rfl rfl rfl⟩

/-! ## Heads count the saves -/

/-- The revision of the head of an owner's request id, 0 where there is none. -/
def headRevision (d : Db) (place : String × String) : Nat :=
  ((lookup HeadRow.place place d.heads).map HeadRow.revision).getD 0

/-- A save of this owner's request id. -/
def Batch.saves (place : String × String) : Batch → Bool
  | saveRequest body _ _ _ =>
    textAt body ["data", "owner"] = some place.1 ∧ textAt body ["data", "input", "request_id"] = some place.2
  | _ => false

theorem headRevision_of_mem (hu : Unique HeadRow.place d.heads) {k : HeadRow} (hk : k ∈ d.heads) :
    headRevision d k.place = k.revision := by
  rw [headRevision, hu.lookup.mpr ⟨hk, rfl⟩]
  rfl

theorem headRevision_none {place : String × String} (h : ∀ k ∈ d.heads, k.place ≠ place) : headRevision d place = 0 := by
  rw [headRevision, lookup_eq_none.mpr h]
  rfl

/-- A head that no statement touched keeps its revision. -/
theorem headRevision_same {place : String × String} (hu : Unique HeadRow.place d.heads) (hu' : Unique HeadRow.place d'.heads)
    (h : ∀ k : HeadRow, k.place = place → (k ∈ d'.heads ↔ k ∈ d.heads)) : headRevision d' place = headRevision d place := by
  by_cases hk : ∃ k ∈ d.heads, k.place = place
  · obtain ⟨k, hk, rfl⟩ := hk
    rw [headRevision_of_mem hu hk, headRevision_of_mem hu' ((h k rfl).mpr hk)]
  · rw [headRevision_none fun k hm he => hk ⟨k, hm, he⟩,
      headRevision_none fun k hm he => hk ⟨k, (h k he).mp hm, he⟩]

theorem headRevision_save (hk : Keys d) {body projection sessionHash : String} {preparation : Option String}
    (hr : saveRequest d body projection sessionHash preparation = some d') (place : String × String) :
    headRevision d' place =
      headRevision d place + if (Batch.saveRequest body projection sessionHash preparation).saves place then 1 else 0 := by
  have hk' := (hk.saveRequest hr).1
  obtain ⟨digest, d₁, d₂, hd, h₁, h₂, h₃⟩ := saveRequest_some hr
  obtain ⟨w, hwd, rfl, hc, hf, hnext, rfl⟩ := saveRequestRow_some h₁
  obtain ⟨-, -, hwo, hwr, -⟩ := hc
  have hheads : d'.heads = d₂.heads := by
    rcases h₃ with rfl | ⟨p, h₃⟩
    · rfl
    · obtain ⟨t, -, -, -, -, -, rfl⟩ := bindPreparation_some h₃
      rfl
  have hsaves : (Batch.saveRequest w.body projection sessionHash preparation).saves place = true ↔
      place = (w.ownerId, w.requestId) := by
    simp only [Batch.saves, hwo, hwr, decide_eq_true_eq, Option.some.injEq]
    exact ⟨fun h => Prod.ext h.1.symm h.2.symm, fun h => by rw [h]; exact ⟨rfl, rfl⟩⟩
  have hu₁ : Unique RequestRow.digest (d.requests ++ [w]) := hk.requests.snoc hf
  obtain ⟨v, hv, hvd, hcase⟩ := saveHead_some (d := { d with requests := d.requests ++ [w] }) hk.heads h₂
  have hvw : v = w := hu₁.eq hv (List.mem_append_right _ (List.mem_singleton_self w))
    (hvd.trans (Option.some.inj (hd.symm.trans hwd)))
  subst hvw
  by_cases hp : place = (v.ownerId, v.requestId)
  · rw [if_pos (hsaves.mpr hp)]
    obtain ⟨hn, rfl⟩ | ⟨old, ho, hop, hrev, rfl⟩ := hcase
    · have hone : v.revision = 1 := by
        rcases hnext with ⟨-, h⟩ | ⟨k, hk, hkp, -⟩
        · exact h
        · exact absurd hkp (hn k hk)
      have hnew : HeadRow.mk v.ownerId v.requestId v.revision digest ∈ d'.heads := by
        rw [hheads]
        exact List.mem_append_right _ (List.mem_singleton_self _)
      rw [headRevision_none (d := d) fun k hk => hp ▸ hn k hk, hp]
      exact (headRevision_of_mem hk'.heads hnew).trans hone
    · have hnew : HeadRow.mk old.ownerId old.requestId v.revision digest ∈ d'.heads := by
        rw [hheads]
        exact replace_mem HeadRow.place { old with revision := v.revision, digest } ho rfl
      rw [hp, ← hop, headRevision_of_mem hk.heads ho, hrev]
      exact headRevision_of_mem hk'.heads hnew
  · rw [if_neg fun h => hp (hsaves.mp h), Nat.add_zero]
    refine headRevision_same hk.heads hk'.heads fun k hkp => ?_
    rw [hheads]
    obtain ⟨hn, rfl⟩ | ⟨old, ho, hop, hrev, rfl⟩ := hcase
    · refine mem_snoc.trans ⟨fun h => h.resolve_right fun he => hp ?_, .inl⟩
      rw [← hkp, he]
      rfl
    · refine (mem_replace HeadRow.place { old with revision := v.revision, digest } ho rfl).trans ⟨?_, fun h => .inr ⟨h, ?_⟩⟩
      · rintro (rfl | h)
        · exact absurd (hkp.symm.trans hop) hp
        · exact h.1
      · intro he
        exact hp (hkp.symm.trans (he.trans hop))

theorem heads_positive (hk : Keys d) (hp : ∀ k ∈ d.heads, 1 ≤ k.revision) {body projection sessionHash : String}
    {preparation : Option String} (hr : saveRequest d body projection sessionHash preparation = some d') :
    ∀ k ∈ d'.heads, 1 ≤ k.revision := by
  obtain ⟨digest, d₁, d₂, hd, h₁, h₂, h₃⟩ := saveRequest_some hr
  obtain ⟨w, hwd, -, -, hf, hnext, rfl⟩ := saveRequestRow_some h₁
  have hone : 1 ≤ w.revision := by
    rcases hnext with ⟨-, h⟩ | ⟨k, -, -, h⟩ <;> omega
  have hu₁ : Unique RequestRow.digest (d.requests ++ [w]) := hk.requests.snoc hf
  obtain ⟨v, hv, hvd, hcase⟩ := saveHead_some (d := { d with requests := d.requests ++ [w] }) hk.heads h₂
  have hvw : v = w := hu₁.eq hv (List.mem_append_right _ (List.mem_singleton_self w))
    (hvd.trans (Option.some.inj (hd.symm.trans hwd)))
  subst hvw
  have h₂ : ∀ k ∈ d₂.heads, 1 ≤ k.revision := by
    intro k hk
    obtain ⟨-, rfl⟩ | ⟨old, ho, -, -, rfl⟩ := hcase
    · rcases mem_snoc.mp hk with hk | rfl
      · exact hp k hk
      · exact hone
    · rcases (mem_replace HeadRow.place { old with revision := v.revision, digest } ho rfl).mp hk with rfl | ⟨hk, -⟩
      · exact hone
      · exact hp k hk
  rcases h₃ with rfl | ⟨p, h₃⟩
  · exact h₂
  · obtain ⟨t, -, -, -, -, -, rfl⟩ := bindPreparation_some h₃
    exact h₂

theorem headRevision_run (hk : Keys d) (hs : Standings d) {b : Batch} (hr : b.run d = some d') (place : String × String) :
    headRevision d' place = headRevision d place + if b.saves place then 1 else 0 := by
  obtain ⟨⟨body, projection, sessionHash, preparation, rfl⟩ | hh, -⟩ := run_cases hk hs hr
  · exact headRevision_save hk hr place
  · have hb : b.saves place = false ∨ ∃ body projection sessionHash preparation,
        b = .saveRequest body projection sessionHash preparation := by
      cases b <;> first | exact .inl rfl | exact .inr ⟨_, _, _, _, rfl⟩
    rcases hb with hb | ⟨body, projection, sessionHash, preparation, rfl⟩
    · rw [hb, headRevision, hh]
      rfl
    · exact headRevision_save hk hr place

/-! ## Every run -/

/-- The run, the grant and the request of a candidate, all live. -/
def CandidateRow.LiveIn (c : CandidateRow) (d : Db) : Prop :=
  (∃ r ∈ d.runs, d.liveRun r ∧ r.runId = c.runId) ∧ (∃ g ∈ d.grants, d.liveGrant g ∧ g.grantId = c.grantId) ∧
    ∃ w ∈ d.requests, d.liveRequest w ∧ w.digest = c.requestDigest

theorem saveCandidate_live (hk : Keys d) {body : String} (hr : saveCandidate d body = some d') :
    ∃ c : CandidateRow, c.body = body ∧ c.LiveIn d ∧ d'.candidates = d.candidates ++ [c] := by
  obtain ⟨c, hc, -, ⟨n, hn, hlive, hnc, g, hg, hglive, hgc, w, hw, hwc, hof⟩, rfl⟩ := saveCandidate_some hr
  refine ⟨c, hc, ⟨⟨n, hn, hlive, hnc⟩, ⟨g, hg, hglive, hgc⟩, w, hw, ?_, hwc⟩, rfl⟩
  -- The live run and the live grant are for one request.
  obtain ⟨-, -, hgr, hwr, -⟩ := hof
  obtain ⟨-, -, x, hx, -, hxr, hxd⟩ := hlive
  obtain ⟨-, -, v, hv, hvlive, hvd, -⟩ := hglive
  cases hk.grants.eq hx hg (hxr.trans hgr.symm)
  cases hk.requests.eq hv hw (hvd.trans (hxd.trans hwr.symm))
  exact hvlive

variable {ι : Type} {l : List (Transactions.Entry ι Db Batch)}

/-- The tables, and the batches that were applied to them so far. -/
structure Recorded (d : Db) (l : List (Transactions.Entry ι Db Batch)) : Prop where
  current : Current d
  standings : Standings d
  revisions : ∀ place, headRevision d place = (l.filter fun e => e.tx.saves place).length
  positive : ∀ k ∈ d.heads, 1 ≤ k.revision
  candidates : ∀ c ∈ d.candidates, ∃ e ∈ l, e.tx = .saveCandidate c.body ∧ c.LiveIn e.before

theorem Standings.withdrawn (h : Standings d) (hw : Withdrawn d d') : Standings d' := by
  refine ⟨fun g hg => ?_, fun r hr => ?_, fun a ha => ?_⟩
  · obtain ⟨h₁, h₂⟩ | ⟨x, hx, rfl | ⟨-, -, rfl⟩⟩ := hw.grants.backward g hg
    · exact .inl ⟨h₁, h₂⟩
    · exact h.grants g hx
    · exact .inr ⟨rfl, rfl⟩
  · obtain ⟨h₁, h₂⟩ | ⟨x, hx, rfl | ⟨-, -, rfl⟩⟩ := hw.runs.backward r hr
    · exact .inl ⟨h₁, h₂⟩
    · exact h.runs r hx
    · exact .inr ⟨rfl, rfl⟩
  · obtain ⟨h₁, h₂⟩ | ⟨x, hx, rfl | ⟨-, -, rfl⟩⟩ := hw.approvals.backward a ha
    · exact .inl ⟨h₁, h₂⟩
    · exact h.approvals a hx
    · exact .inr ⟨rfl, rfl⟩

theorem Recorded.step (h : Recorded d l) (i : ι) {b : Batch} (hr : b.run d = some d') : Recorded d' (l ++ [⟨i, b, d⟩]) := by
  have hk := h.current.keys
  obtain ⟨hh, hc, hw⟩ := run_cases hk h.standings hr
  refine ⟨h.current.run hr, h.standings.withdrawn hw, fun place => ?_, ?_, fun c hm => ?_⟩
  · rw [headRevision_run hk h.standings hr place, h.revisions place, List.filter_append, List.length_append]
    cases hs : b.saves place <;> simp [hs]
  · obtain ⟨body, projection, sessionHash, preparation, rfl⟩ | hh := hh
    · exact heads_positive hk h.positive hr
    · rw [hh]
      exact h.positive
  · have hold : c ∈ d.candidates → ∃ e ∈ l ++ [⟨i, b, d⟩], e.tx = .saveCandidate c.body ∧ c.LiveIn e.before := by
      intro hm
      obtain ⟨e, he, he'⟩ := h.candidates c hm
      exact ⟨e, List.mem_append_left _ he, he'⟩
    obtain ⟨body, rfl⟩ | hsame := hc
    · obtain ⟨x, hx, hlive, hsnoc⟩ := saveCandidate_live hk hr
      rw [hsnoc] at hm
      rcases mem_snoc.mp hm with hm | rfl
      · exact hold hm
      · exact ⟨⟨i, .saveCandidate body, d⟩, List.mem_append_right _ (List.mem_singleton_self _), by rw [hx], hlive⟩
    · exact hold (hsame ▸ hm)

theorem Recorded.drift (h : Recorded d l) (hd : store.drift d d') : Recorded d' l := by
  have hc := h.current.drift hd
  obtain ⟨around, rfl⟩ := hd
  exact ⟨hc, ⟨h.standings.grants, h.standings.runs, h.standings.approvals⟩, h.revisions, h.positive, h.candidates⟩

/-- What has become of the rows that can be revoked. -/
structure Later (d d' : Db) : Prop where
  grants : ∀ g ∈ d.grants, ∃ g' ∈ d'.grants, g.Later g'
  runs : ∀ r ∈ d.runs, ∃ r' ∈ d'.runs, r.Later r'
  approvals : ∀ a ∈ d.approvals, ∃ a' ∈ d'.approvals, a.Later a'

theorem Later.refl (d : Db) : Later d d :=
  ⟨fun g h => ⟨g, h, .inl rfl⟩, fun r h => ⟨r, h, .inl rfl⟩, fun a h => ⟨a, h, .inl rfl⟩⟩

theorem Later.trans {d d' d'' : Db} (h : Later d d') (h' : Later d' d'') : Later d d'' := by
  refine ⟨fun g hg => ?_, fun r hr => ?_, fun a ha => ?_⟩
  · obtain ⟨x, hx, hgx⟩ := h.grants g hg
    obtain ⟨y, hy, hxy⟩ := h'.grants x hx
    exact ⟨y, hy, hgx.trans hxy⟩
  · obtain ⟨x, hx, hrx⟩ := h.runs r hr
    obtain ⟨y, hy, hxy⟩ := h'.runs x hx
    exact ⟨y, hy, hrx.trans hxy⟩
  · obtain ⟨x, hx, hax⟩ := h.approvals a ha
    obtain ⟨y, hy, hxy⟩ := h'.approvals x hx
    exact ⟨y, hy, hax.trans hxy⟩

/-- No request, grant, run, approval, candidate or prepared task yet. -/
structure Db.Fresh (d : Db) : Prop where
  keys : Keys d
  requests : d.requests = []
  heads : d.heads = []
  grants : d.grants = []
  runs : d.runs = []
  candidates : d.candidates = []
  approvals : d.approvals = []
  preparedTasks : d.preparedTasks = []
  requestPreparations : d.requestPreparations = []

theorem Db.Fresh.recorded (h : d.Fresh) : Recorded (ι := ι) d [] := by
  obtain ⟨hk, -, hh, hg, hr, hc, ha, hp, hrp⟩ := h
  refine ⟨⟨hk, ?_, ?_, ?_, ?_, ?_, ?_⟩, ⟨?_, ?_, ?_⟩, fun place => headRevision_none ?_, ?_, ?_⟩
  all_goals simp [hh, hg, hr, hc, ha, hp, hrp]

section
variable {ε α : Type} [DecidableEq ι] {entry : ι → Prog (Request ε Db Batch) Request.Reply α → Prop}

/-- What is superseded or withdrawn is dead, in every run of any callers. -/
theorem authority_dead (hd : d.Fresh) {c : Config ι (Shared ι Db Batch) (Request ε Db Batch) Request.Reply α}
    (hc : Runs store entry d c) :
    -- A head has the number of its saves as its revision.
    (∀ place, headRevision c.state.db place = (c.state.log.filter fun e => e.tx.saves place).length) ∧
    (∀ k ∈ c.state.db.heads, 1 ≤ k.revision ∧ headRevision c.state.db k.place = k.revision) ∧
    -- A grant that is not revoked is for a head, for a task repository as it is and for verified preparations.
    (∀ g ∈ c.state.db.grants, g.revoked = false → ∃ w ∈ c.state.db.requests, w.digest = g.requestDigest ∧
      (∃ k ∈ c.state.db.heads, k.place = (w.ownerId, w.requestId) ∧ k.digest = w.digest) ∧
      (∃ t ∈ c.state.db.tasks, textAt w.body ["data", "input", "task_repository"] = some t.repositoryId ∧
        t.revision = g.taskRevision) ∧
      ∀ r ∈ c.state.db.requestPreparations, r.requestDigest = w.digest → ∀ t ∈ c.state.db.preparedTasks,
        t.repositoryId = r.repositoryId → ∀ p ∈ c.state.db.preparations, p.operationId = t.preparationId →
          p.state = .verified) ∧
    -- Grants, runs and approvals are in one of two states and are revoked at most once.
    Standings c.state.db ∧ (∀ c', Steps (world store) entry c c' → Later c.state.db c'.state.db) ∧
    -- A candidate was inserted where its run, grant and request were live.
    ∀ x ∈ c.state.db.candidates, ∃ e ∈ c.state.log, e.tx = .saveCandidate x.body ∧ x.LiveIn e.before := by
  have step : ∀ i b d d' (l : List (Transactions.Entry ι Db Batch)), Recorded d l → Batch.run b d = some d' →
      Recorded d' (l ++ [⟨i, b, d⟩]) := fun i b d d' l h hr => h.step i hr
  have drift : ∀ d d' (l : List (Transactions.Entry ι Db Batch)), Recorded d l → store.drift d d' → Recorded d' l :=
    fun d d' l h hd => h.drift hd
  have h : Recorded c.state.db c.state.log := Runs.invariant (Y := store) step drift hd.recorded hc
  refine ⟨h.revisions, fun k hk => ⟨h.positive k hk, headRevision_of_mem h.current.keys.heads hk⟩, fun g hg hr => ?_,
    h.standings, fun c' hc' => ?_, h.candidates⟩
  · obtain ⟨w, hw, hwd, t, ht, hwt, htr⟩ := h.current.task g hg hr
    obtain ⟨k, hk, hkd⟩ := h.current.head g hg hr
    obtain ⟨v, hv, hvd, hkp⟩ := h.current.heads k hk
    cases h.current.keys.requests.eq hv hw (hvd.trans (hkd.trans hwd.symm))
    refine ⟨w, hw, hwd, ⟨k, hk, hkp, hvd.symm⟩, ⟨t, ht, hwt, htr⟩, fun r hr' hrd => ?_⟩
    exact h.current.prepared g hg hr r hr' (hrd.trans hwd)
  · refine Runs.later (Y := store) step drift hd.recorded hc Later.refl Later.trans (fun b d d' l h hr => ?_) ?_ hc'
    · obtain ⟨-, -, hw⟩ := run_cases h.current.keys h.standings hr
      exact ⟨hw.grants.forward, hw.runs.forward, hw.approvals.forward⟩
    · rintro d d' ⟨around, rfl⟩
      exact ⟨(Later.refl d).grants, (Later.refl d).runs, (Later.refl d).approvals⟩

end

/-- A caller that records a task repository at a revision. -/
def recordTask (revision : Nat) : Calls Unit Db Batch Unit :=
  commit (.refreshTask ⟨"task-1", "owner-1", revision, "d", "client-1", "workload-1", "code-1", "0"⟩)

/-- A task repository is recorded, and then a new revision of it. -/
theorem authority_dead_refreshed :
    ∃ c : Config Nat (Shared Nat Db Batch) (Request Unit Db Batch) Request.Reply (Except Unit Unit),
      Runs store (fun _ _ => True) .empty c ∧
        c.state.db.tasks = [⟨"task-1", "owner-1", 2, "d", "client-1", "workload-1", "code-1", "0"⟩] ∧ Standings c.state.db := by
  have hrun : ∃ c : Config Nat (Shared Nat Db Batch) (Request Unit Db Batch) Request.Reply (Except Unit Unit),
      Runs store (fun _ _ => True) .empty c ∧
        c.state.db.tasks = [⟨"task-1", "owner-1", 2, "d", "client-1", "workload-1", "code-1", "0"⟩] := by
    have hstart : Runs store (fun _ _ => True) .empty _ :=
      .single (.start (i := 0) (p := (recordTask 1).run) rfl trivial)
    have hone := hstart.tail (.call (i := 0) rfl (.commit rfl))
    have hnext := hone.tail (.start (i := 1) (p := (recordTask 2).run) rfl trivial)
    exact ⟨_, hnext.tail (.call (i := 1) rfl (.commit rfl)), rfl⟩
  obtain ⟨c, hc, ht⟩ := hrun
  have hfresh : Db.empty.Fresh := ⟨.empty, rfl, rfl, rfl, rfl, rfl, rfl, rfl, rfl⟩
  exact ⟨c, hc, ht, (authority_dead hfresh hc).2.2.2.1⟩

end Mikaki.WorkStore
