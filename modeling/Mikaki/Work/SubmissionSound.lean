import Mikaki.Work.Submission

/-!
# What is confirmed was authorized throughout

Rows are never removed and a revocation is never undone (`Later`), so a grant
that is unrevoked when a candidate is confirmed was unrevoked in every state
since the guard was issued. `Bound` is what ties the records to each other.
-/

namespace Mikaki

open Checks Table

namespace Submission

/-! ## Nothing is lost -/

structure Later (s t : Store) : Prop where
  requests : Grows Eq s.requests t.requests
  grants : Grows Grant.Later s.grants t.grants
  runs : Grows Run.Later s.runs t.runs
  issued : s.issued <+: t.issued
  prepared : s.prepared <+: t.prepared

theorem Later.refl (s : Store) : Later s s :=
  ⟨.refl (fun _ => rfl) _, .refl (fun _ => .inl rfl) _, .refl (fun _ => .inl rfl) _, List.prefix_rfl, List.prefix_rfl⟩

theorem getElem?_of_prefix {α : Type} {l m : List α} {i : Nat} {a : α} (h : l <+: m) (ha : l[i]? = some a) :
    m[i]? = some a := by
  obtain ⟨k, rfl⟩ := h
  exact (List.getElem?_append_left (List.getElem?_eq_some_iff.mp ha).1).trans ha

theorem Later.trans {s t u : Store} (h₁ : Later s t) (h₂ : Later t u) : Later s u where
  requests := h₁.requests.trans Eq.trans h₂.requests
  grants := h₁.grants.trans Grant.Later.trans h₂.grants
  runs := h₁.runs.trans Run.Later.trans h₂.runs
  issued := h₁.issued.trans h₂.issued
  prepared := h₁.prepared.trans h₂.prepared

variable [Hashes]

theorem Change.later {s t : Store} (h : Change s t) : Later s t := by
  have hs := Later.refl s
  cases h with
  | same => exact hs
  | request _ h => exact { hs with requests := .put_new (fun _ => rfl) h }
  | grant _ _ h => exact { hs with grants := .put_new (fun _ => .inl rfl) h }
  | run _ _ _ h => exact { hs with runs := .put_new (fun _ => .inl rfl) h }
  | @revokeGrant k g h => exact { hs with grants := .put_old (fun _ => .inl rfl) h g.later_revoke }
  | @revokeRun k n h => exact { hs with runs := .put_old (fun _ => .inl rfl) h n.later_revoke }
  | issue _ => exact { hs with issued := List.prefix_append .. }
  | prepare _ _ => exact { hs with prepared := List.prefix_append .. }
  | confirm _ => exact ⟨hs.requests, hs.grants, hs.runs, hs.issued, hs.prepared⟩

theorem run_later (s : Store) (cs : List Call) : Later s (run s cs) :=
  Calls.run_rel (I := fun _ => True) Later.refl Later.trans (fun _ _ _ => trivial)
    (fun c s _ => (step_change c s).later) trivial cs

/-! ## What binds the records to each other -/

structure GrantBound (k : Id) (g : Grant) : Prop where
  key : g.id = k
  standing : Standing g.revision g.revoked

structure RunBound (s : Store) (k : Id) (n : Run) : Prop where
  key : n.id = k
  standing : Standing n.revision n.revoked
  expires : ∃ g, s.grants n.grant = some g ∧ n.expiresAt ≤ g.expiresAt
  request : ∃ r, s.requests n.request = some r ∧ n.client.text = r.input.recipient ∧ n.workload.text = r.input.workload

/-- The actor a guard was issued to is the one its run was registered for. -/
structure SameActor (a : ManagedActor) (g : Grant) (n : Run) : Prop where
  run : a.run = n.id
  grant : a.grant = g.id
  issuer : a.issuer = n.issuer ∧ a.issuerRevision = n.issuerRevision
  client : a.client = n.client
  workload : a.workload = n.workload
  proofKey : a.proofKey = n.proofKey

structure IssueBound (s : Store) (e : Issue) : Prop where
  grant : ∃ g, s.grants e.guard.producer.grant = some g
  run : ∃ n, s.runs e.guard.producer.run = some n
  actor : ∀ g n, s.grants e.guard.producer.grant = some g → s.runs e.guard.producer.run = some n → SameActor e.actor g n

def PrepareBound (s : Store) (p : Preparing) : Prop :=
  ∃ e input, s.issued[p.issue]? = some e ∧ e.guard.prepareCandidate input = .ok p.prepared

structure Bound (s : Store) : Prop where
  requests : All (fun k r => r.digest = k) s.requests
  grants : All GrantBound s.grants
  runs : All (RunBound s) s.runs
  issued : ∀ e ∈ s.issued, IssueBound s e
  prepared : ∀ p ∈ s.prepared, PrepareBound s p

theorem bound_empty : Bound .empty :=
  ⟨.none _, .none _, .none _, fun _ h => (by cases h), fun _ h => (by cases h)⟩

omit [Hashes] in
theorem SameActor.later {a : ManagedActor} {g g' : Grant} {n n' : Run} (h : SameActor a g n) (hg : g.Later g')
    (hn : n.Later n') : SameActor a g' n' := by
  rcases hg with rfl | ⟨-, rfl⟩ <;> rcases hn with rfl | ⟨-, rfl⟩ <;>
    exact ⟨h.run, h.grant, h.issuer, h.client, h.workload, h.proofKey⟩

section
variable {s t : Store} (hl : Later s t)
include hl

omit [Hashes] in
theorem RunBound.later {k : Id} {n : Run} (h : RunBound s k n) : RunBound t k n := by
  obtain ⟨g, hg, hx⟩ := h.expires
  obtain ⟨r, hr, hrr⟩ := h.request
  obtain ⟨g', hg', hgl⟩ := hl.grants _ _ hg
  obtain ⟨_, hr', rfl⟩ := hl.requests _ _ hr
  refine ⟨h.key, h.standing, ⟨g', hg', ?_⟩, r, hr', hrr⟩
  rcases hgl with rfl | ⟨-, rfl⟩ <;> exact hx

omit [Hashes] in
theorem IssueBound.later {e : Issue} (h : IssueBound s e) : IssueBound t e := by
  obtain ⟨g, hg⟩ := h.grant
  obtain ⟨n, hn⟩ := h.run
  obtain ⟨g', hg', hgl⟩ := hl.grants _ _ hg
  obtain ⟨n', hn', hnl⟩ := hl.runs _ _ hn
  refine ⟨⟨g', hg'⟩, ⟨n', hn'⟩, fun g₁ n₁ hg₁ hn₁ => ?_⟩
  cases hg'.symm.trans hg₁
  cases hn'.symm.trans hn₁
  exact (h.actor g n hg hn).later hgl hnl

theorem PrepareBound.later {p : Preparing} (h : PrepareBound s p) : PrepareBound t p := by
  obtain ⟨e, input, he, hp⟩ := h
  exact ⟨e, input, getElem?_of_prefix hl.issued he, hp⟩

end

omit [Hashes] in
theorem GrantBound.revoke {g : Grant} {k : Id} (h : GrantBound k g) : GrantBound k g.revoke.2 := by
  refine ⟨h.key, ?_⟩
  rw [Grant.revoke, h.standing.revoke]
  exact .inr ⟨rfl, rfl⟩

omit [Hashes] in
theorem RunBound.revoke {s : Store} {n : Run} {k : Id} (h : RunBound s k n) : RunBound s k n.revoke.2 := by
  refine ⟨h.key, ?_, h.expires, h.request⟩
  rw [Run.revoke, h.standing.revoke]
  exact .inr ⟨rfl, rfl⟩

/-- A run is registered under its grant, for the recipient and the workload of its request. -/
theorem register_bound {s : Store} {k : Id} {d : Digest} {a : ManagedActor} {t : TaskRepository} {x : Nat}
    {e : Environment} {g : Grant} {r : WorkRequest} {n : Run} (hb : Bound s) (hg : s.grants k = some g)
    (hr : s.requests d = some r) (hn : Run.register a g r t x e = .ok n) : RunBound s n.id n := by
  obtain ⟨-, -, ⟨-, hc, hw⟩, -, hx, rfl⟩ := Run.register_ok.mp hn
  have hgk : g.id = k := (hb.grants _ _ hg).key
  have hrk : r.digest = d := hb.requests _ _ hr
  exact ⟨rfl, .inl ⟨rfl, rfl⟩, ⟨g, (congrArg s.grants hgk).trans hg, hx⟩, r, (congrArg s.requests hrk).trans hr, hc, hw⟩

/-- What a guard repeats of the records it was evaluated on. -/
theorem evaluated_same {s : Store} {f : Facts} {guard : SubmissionGuard} {n : Run} {g : Grant} {r : WorkRequest}
    (hb : Bound s) (h : Evaluated s f guard n g r) :
    guard.producer.grant = f.grant ∧ guard.producer.run = f.run ∧ SameActor f.actor g n := by
  obtain ⟨-, -, -, -, -, ⟨-, ha, hr, hi, hir, hc, hw, hk⟩, rfl⟩ := Run.authorizeSubmission_ok.mp h.issued
  exact ⟨(hb.grants _ _ h.grant).key, (hb.runs _ _ h.run).key, hr, ha, ⟨hi, hir⟩, hc, hw, hk⟩

theorem issue_bound {s : Store} {f : Facts} {guard : SubmissionGuard} {n : Run} {g : Grant} {r : WorkRequest}
    (hb : Bound s) (h : Evaluated s f guard n g r) : IssueBound s ⟨guard, f.actor⟩ := by
  obtain ⟨hg, hn, hs⟩ := evaluated_same hb h
  have hg' := (congrArg s.grants hg).trans h.grant
  have hn' := (congrArg s.runs hn).trans h.run
  refine ⟨⟨g, hg'⟩, ⟨n, hn'⟩, fun g₁ n₁ h₁ h₂ => ?_⟩
  cases hg'.symm.trans h₁
  cases hn'.symm.trans h₂
  exact hs

theorem Change.bound {s t : Store} (h : Change s t) (hb : Bound s) : Bound t := by
  have hl := h.later
  have hn : All (RunBound t) s.runs := hb.runs.mono fun _ _ h => h.later hl
  have hi : ∀ e ∈ s.issued, IssueBound t e := fun e he => (hb.issued e he).later hl
  have hp : ∀ p ∈ s.prepared, PrepareBound t p := fun p hp => (hb.prepared p hp).later hl
  cases h with
  | same => exact hb
  | request hr _ => exact { hb with requests := hb.requests.put rfl, runs := hn, issued := hi, prepared := hp }
  | grant hr hg _ =>
    obtain ⟨-, -, -, -, -, -, he⟩ := Grant.approve_ok.mp hg
    refine { hb with grants := hb.grants.put ⟨rfl, ?_⟩, runs := hn, issued := hi, prepared := hp }
    rw [he]; exact .inl ⟨rfl, rfl⟩
  | run hg hr h _ => exact { hb with runs := hn.put ((register_bound hb hg hr h).later hl), issued := hi, prepared := hp }
  | revokeGrant h => exact { hb with grants := hb.grants.put (hb.grants _ _ h).revoke, runs := hn, issued := hi, prepared := hp }
  | revokeRun h => exact { hb with runs := hn.put (hn _ _ h).revoke, issued := hi, prepared := hp }
  | issue h =>
    refine { hb with runs := hn, issued := fun e he => ?_, prepared := hp }
    rcases List.mem_append.mp he with he | he
    · exact hi e he
    · rw [List.mem_singleton.mp he]; exact (issue_bound hb h).later hl
  | @prepare i e input p he hpc =>
    refine { hb with runs := hn, issued := hi, prepared := fun q hq => ?_ }
    rcases List.mem_append.mp hq with hq | hq
    · exact hp q hq
    · rw [List.mem_singleton.mp hq]; exact ⟨e, input, he, hpc⟩
  | confirm => exact { hb with runs := hn, issued := hi, prepared := hp }

theorem run_bound (cs : List Call) : Bound (run .empty cs) :=
  Calls.run_invariant (P := Bound) (fun c s h => (step_change c s).bound h) bound_empty cs

/-! ## Confirmation -/

/-- What a confirmation that succeeds was made on. -/
structure Confirms (s : Store) (index : Nat) (f : Facts) (p : Preparing) (e : Issue) (g : Grant) (n : Run)
    (r : WorkRequest) : Prop where
  prepared : s.prepared[index]? = some p
  issued : s.issued[p.issue]? = some e
  grant : s.grants f.grant = some g
  run : s.runs f.run = some n
  request : s.requests f.request = some r
  kept : (step (.confirm index f) s).2.confirmed = s.confirmed ++ [p.prepared.candidate]
  provenance : p.prepared.candidate.provenance = e.guard

theorem confirm_ok {s : Store} {index : Nat} {f : Facts} (hb : Bound s)
    (h : (step (.confirm index f) s).1 = some (.ok ())) :
    ∃ p e g n r, Confirms s index f p e g n r ∧ Evaluated s f e.guard n g r ∧
      ∃ input, e.guard.prepareCandidate input = .ok p.prepared := by
  rw [step, Store.confirm] at h
  split at h
  · rename_i p current hp hev
    obtain ⟨n, g, r, hv⟩ := evaluate_ok hev
    split at h
    · cases h
    · rename_i c hc
      obtain ⟨hg, rfl⟩ := PreparedCandidate.confirm_ok.mp hc
      obtain ⟨e, input, he, hpc⟩ := hb.prepared p (List.mem_of_getElem? hp)
      obtain ⟨hpg, hprov, -⟩ := Candidate.prepare_again hpc
      have hcur : current = e.guard := hg.symm.trans hpg
      refine ⟨p, e, g, n, r, ⟨hp, he, hv.grant, hv.run, hv.request, ?_, hprov⟩, hcur ▸ hv, input, hpc⟩
      rw [step, Store.confirm]
      simp only [hp, hev, hc]
  · cases h
  · cases h

end Submission

end Mikaki
