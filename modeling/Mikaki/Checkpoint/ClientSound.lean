import Mikaki.Checkpoint.WriteAhead

/-!
# Soundness of the clients

One rule for each call of `WorkStore`: what the client knows before it and what
it knows when the call succeeds, whatever the other clients do in between.
-/

namespace Mikaki.WorkCheckpoint

open Checks Concurrent Concurrent.Prog

variable {ι β : Type} (authority : String)

/-- Every client keeps the invariant; before it starts it has read nothing. -/
def contract : Contract ι (Shared ι β) := ⟨Shared.Inv, Shared.Guar, fun i s => i ∉ s.soundReads⟩

/-- From `P`, the call of client `i` succeeds only with `Q`. -/
abbrev Spec {α : Type} (i : ι) (P : Shared ι β → Prop) (x : Store β α) (Q : α → Shared ι β → Prop) : Prop :=
  Ensures (world authority) contract i P x Q

namespace Shared

/-- The client drew this operation identifier and got no permit for it yet. -/
def Mine (i : ι) (operation : String) (s : Shared ι β) : Prop :=
  (operation, i) ∈ s.operations ∧ ∀ p, s.object.pending = some p → p.operation ≠ operation

/-- The client holds the pending permit and nothing was run under it. -/
def Own (i : ι) (p : Permit) (s : Shared ι β) : Prop :=
  s.object.pending = some p ∧ ¬s.Executed p ∧ s.flight = [] ∧ s.Drawn i p

/-- The client read the marker while the primary was not behind. -/
def Sound (i : ι) (s : Shared ι β) : Prop := i ∈ s.soundReads

/-- The statements of the client committed under the permit. -/
def Committed (i : ι) (statements : β → Option β) (p : Permit) (s : Shared ι β) : Prop :=
  ∃ c ∈ s.commits, c.caller = i ∧ c.permit = p ∧ c.statements = statements

end Shared

open Shared

variable {authority} {i : ι} {s s' : Shared ι β}

/-! ## What the others leave alone -/

theorem lasting_of_grows {R : Shared ι β → Prop} (h : ∀ s s' : Shared ι β, s.Inv → Grows s s' → R s → R s') :
    Lasting (world authority) contract R := by
  intro s s' hs _ hr hR
  rcases hr with he | ⟨j, hj⟩
  · exact h s s' hs (.env he) hR
  · exact h s s' hs hj.toGrows hR

theorem sound_lasting : Lasting (world authority) contract (Shared.Sound (β := β) i) :=
  lasting_of_grows fun _ _ _ hg h => hg.reads i h

theorem seen_lasting (c : Checkpoint) : Lasting (world authority) contract (Seen (ι := ι) (β := β) c) :=
  lasting_of_grows fun _ _ _ hg ⟨x, hx, hc⟩ => ⟨x, hg.snapshots x hx, hc⟩

theorem behind_lasting (c : Checkpoint) : Lasting (world authority) contract (Behind (ι := ι) (β := β) c) :=
  lasting_of_grows fun _ _ hs hg h => h.grows hs hg

theorem settled_lasting (p : Permit) : Lasting (world authority) contract fun s : Shared ι β => p ∈ s.settled :=
  lasting_of_grows fun _ _ _ hg h => hg.settled p h

theorem committed_lasting (f : β → Option β) (p : Permit) :
    Lasting (world authority) contract (Committed i f p) :=
  lasting_of_grows fun _ _ _ hg ⟨c, hc, h⟩ => ⟨c, hg.commits c hc, h⟩

theorem mine_stable (operation : String) : Stable (world authority) contract i (Mine (β := β) i operation) := by
  intro s s' hs hs' ⟨hm, hn⟩ hr
  rcases hr with he | ⟨j, hj, hg⟩
  · cases he with
    | raiseFloor ho =>
      simp only [State.raiseFloor, bind_eq_ok, pure_eq_ok] at ho
      obtain ⟨_, -, _, -, rfl⟩ := ho
      exact ⟨hm, hn⟩
    | lateFence hf hst hx =>
      unfold Shared.commitFence
      split
      · exact ⟨hm, hn⟩
      · exact ⟨hm, hn⟩
    | _ => exact ⟨hm, hn⟩
  · refine ⟨hg.operations _ hm, fun p hp => ?_⟩
    rcases hg.begun p hp with hp | hd
    · exact hn p hp
    · rintro rfl
      exact hj (hs.unique _ _ _ hd hm)

theorem own_stable (p : Permit) : Stable (world authority) contract i (Own (β := β) i p) := by
  intro s s' hs hs' ⟨hp, he, hf, hd⟩ hr
  rcases hr with henv | ⟨j, hj, hg⟩
  · cases henv with
    | raiseFloor ho =>
      simp only [State.raiseFloor, bind_eq_ok, pure_eq_ok] at ho
      obtain ⟨_, -, _, -, rfl⟩ := ho
      exact ⟨hp, he, hf, hd⟩
    | lateBatch hfl => simp [hf] at hfl
    | lateFence hfl => simp [hf] at hfl
    | givenUp hfl => simp [hf] at hfl
    | _ => exact ⟨hp, he, hf, hd⟩
  · have hne : ¬s.Drawn j p := fun h => hj (hs.unique _ _ _ h hd)
    have hp' : s'.object.pending = some p := by
      rcases hg.pending p hp with hp' | ⟨hx, -⟩
      · exact hp'
      · exact absurd hx he
    refine ⟨hp', fun hx => ?_, ?_, hg.operations _ hd⟩
    · rcases hg.executed p hp hx with h | h
      · exact he h
      · exact hne h
    · rw [List.eq_nil_iff_forall_not_mem]
      intro f hf'
      rcases hg.flights f hf' with h | h
      · simp [hf] at h
      · have := (hs'.flight f hf').1
        rw [hp'] at this
        cases this
        exact hne h

/-! ## One rule for each request -/

section
variable {P : Shared ι β → Prop}

theorem spec_validateCheckpoint (c : Checkpoint) :
    Spec authority i P (WorkStore.validateCheckpoint c) fun _ => P :=
  Ensures.post .fails fun _ _ _ h => h.1

theorem spec_validatePermit (p : Permit) : Spec authority i P (WorkStore.validatePermit p) fun _ => P := by
  unfold WorkStore.validatePermit
  refine (spec_validateCheckpoint _).bind fun _ => (spec_validateCheckpoint _).bind fun _ => ?_
  exact Ensures.post .fails fun _ _ _ h => h.1

theorem spec_opaqueId : Spec authority i P WorkStore.opaqueId fun operation => Mine i operation := by
  refine Ensures.ask (fun operation => mine_stable operation) fun s operation s' hs _ hx => ?_
  cases hx with
  | opaqueId _ hfresh =>
    refine ⟨{ hs with drawn := ?_, unique := ?_, flight := ?_ }, { Guar.refl i s with operations := ?_ },
      List.mem_cons_self, ?_⟩
    · intro p hp
      obtain ⟨j, hj⟩ := hs.drawn p hp
      exact ⟨j, List.mem_cons_of_mem _ hj⟩
    · intro o j k hj hk
      rcases List.mem_cons.mp hj with hj | hj
      · cases hj
        rcases List.mem_cons.mp hk with hk | hk
        · cases hk; rfl
        · exact absurd hk (hfresh k)
      · rcases List.mem_cons.mp hk with hk | hk
        · cases hk
          exact absurd hj (hfresh j)
        · exact hs.unique o j k hj hk
    · intro f hf
      obtain ⟨h1, h2, h3⟩ := hs.flight f hf
      exact ⟨h1, h2, List.mem_cons_of_mem _ h3⟩
    · exact fun o ho => List.mem_cons_of_mem _ ho
    · rintro p hp rfl
      obtain ⟨j, hj⟩ := hs.drawn p hp
      exact hfresh j hj

theorem spec_primaryCheckpoint (hP : Stable (world authority) contract i P)
    (hr : ∀ s, P s → P { s with soundReads := i :: s.soundReads }) :
    Spec authority i P WorkStore.primaryCheckpoint fun c s => P s ∧ Seen c s ∧ (Shared.Sound i s ∨ Behind c s) := by
  unfold WorkStore.primaryCheckpoint
  have hst : ∀ c, Stable (world authority) contract i fun s => P s ∧ Seen c s ∧ (Shared.Sound i s ∨ Behind c s) :=
    fun c => hP.and (((seen_lasting c).stable i).and ((sound_lasting.stable i).or ((behind_lasting c).stable i)))
  have hread : Spec authority i P WorkStore.readMarker fun c s => P s ∧ Seen c s ∧ (Shared.Sound i s ∨ Behind c s) := by
    refine Ensures.query hst fun s x s' hs hp hx => ?_
    cases hx with
    | readSound hq =>
      refine ⟨{ hs with }, { Guar.refl i s with reads := ?_, newReads := ?_, quarantined := ?_ }, ?_⟩
      · exact fun j hj => List.mem_cons_of_mem _ hj
      · intro j hj
        rcases List.mem_cons.mp hj with rfl | hj
        · exact .inr ⟨rfl, hq⟩
        · exact .inl hj
      · exact fun h => absurd h hq
      · rintro c ⟨⟩
        exact ⟨hr s hp, ⟨s.primary, hs.primary, rfl⟩, .inl List.mem_cons_self⟩
    | readBehind hq =>
      refine ⟨hs, .refl i s, ?_⟩
      rintro c ⟨⟩
      exact ⟨hp, ⟨s.primary, hs.primary, rfl⟩, .inr (quarantined_iff.mp hq)⟩
    | readFails e => exact ⟨hs, .refl i s, (fun _ h => nomatch h)⟩
  refine hread.bind fun c => ?_
  exact (spec_validateCheckpoint c).bind fun _ => .pure fun _ _ h => h

theorem spec_status {R : State → Shared ι β → Prop} (hst : ∀ st, Stable (world authority) contract i (R st))
    (h : ∀ s : Shared ι β, s.Inv → P s → R s.object s) : Spec authority i P WorkStore.status R := by
  refine Ensures.query hst fun s x s' hs hp hx => ?_
  cases hx with
  | status hcur =>
    refine ⟨hs, .refl i s, ?_⟩
    rintro st ⟨⟩
    exact h s hs hp
  | statusFails e => exact ⟨hs, .refl i s, (fun _ h => nomatch h)⟩

/-- A marker that is behind gets no permit. -/
theorem spec_begin (c : Checkpoint) (operation : String) :
    Spec authority i (fun s : Shared ι β => Mine i operation s ∧ (Shared.Sound i s ∨ Behind c s))
      (WorkStore.begin c operation) fun p s => Own i p s ∧ Shared.Sound i s := by
  refine Ensures.query (fun p => (own_stable p).and (sound_lasting.stable i)) fun s x s' hs hp hx => ?_
  obtain ⟨⟨hm, hmine⟩, hb⟩ := hp
  have key : ∀ {tip : String} {p : Permit} {o : State}, s.object.begin authority c operation release tip = .ok (p, o) →
      Inv { s with object := o } ∧ Guar i s { s with object := o } ∧ Own i p { s with object := o } ∧
        Shared.Sound i { s with object := o } := by
    intro tip p o ho
    obtain ⟨hp, hop, -, -⟩ | ⟨hn, hc, rfl, rfl⟩ := begin_eq_ok ho
    · exact absurd hop (hmine p hp)
    · have hadv := permitFor_advances c operation tip
      have hne := hs.not_executed_of_begun hn hadv hc.symm
      refine ⟨hs.begin hn hadv hc.symm hm, .begin hn hm, ⟨rfl, hne, ?_, hm⟩, ?_⟩
      · rw [List.eq_nil_iff_forall_not_mem]
        intro f hf
        have := (hs.flight f hf).1
        rw [hn] at this
        cases this
      · rcases hb with hb | hb | ⟨q, hq, -⟩
        · exact hb
        · rw [hc] at hb
          exact absurd hb (lt_irrefl _)
        · rw [hn] at hq
          cases hq
  cases hx with
  | begin ho =>
    obtain ⟨h1, h2, h3⟩ := key ho
    refine ⟨h1, h2, ?_⟩
    rintro q ⟨⟩
    exact h3
  | beginLost e ho => exact ⟨(key ho).1, (key ho).2.1, (fun _ h => nomatch h)⟩
  | beginFails e => exact ⟨hs, .refl i s, (fun _ h => nomatch h)⟩

theorem spec_commit (p : Permit) (c : Checkpoint) :
    Spec authority i (Seen (ι := ι) (β := β) c) (WorkStore.commit p c) fun _ s => p ∈ s.settled := by
  refine Ensures.query (fun _ => (settled_lasting p).stable i) fun s x s' hs hp hx => ?_
  have key : ∀ {d : Checkpoint} {o : State}, s.object.commit p c release = .ok (d, o) →
      Inv { s with object := o, settled := p :: s.settled } ∧
        Guar i s { s with object := o, settled := p :: s.settled } := by
    intro d o ho
    obtain ⟨rfl, ⟨-, rfl⟩ | ⟨hpend, rfl⟩⟩ := commit_eq_ok ho
    · exact ⟨hs.settle hp, .settle i s p⟩
    · exact ⟨hs.commit hpend hp, .commit hs hpend hp i⟩
  cases hx with
  | commit ho => exact ⟨(key ho).1, (key ho).2, fun _ _ => List.mem_cons_self⟩
  | commitLost e ho => exact ⟨(key ho).1, (key ho).2, (fun _ h => nomatch h)⟩
  | commitFails e => exact ⟨hs, .refl i s, (fun _ h => nomatch h)⟩

theorem spec_batch (p : Permit) (f : β → Option β) :
    Spec authority i (Own i p) (WorkStore.batch p f) fun r s =>
      (r = .aborted → Own i p s) ∧ (r = .committed → Committed i f p s) := by
  refine Ensures.ask (fun r => ?_) fun s r s' hs ⟨hp, he, hf, hd⟩ hx => ?_
  · cases r with
    | aborted => exact fun s s' hs hs' h hr => ⟨fun _ => own_stable p s s' hs hs' (h.1 rfl) hr, (fun h => nomatch h)⟩
    | committed =>
      exact fun s s' hs hs' h hr =>
        ⟨(fun h => nomatch h), fun _ => (committed_lasting f p).stable i s s' hs hs' (h.2 rfl) hr⟩
    | lost => exact fun s s' hs hs' h hr => ⟨(fun h => nomatch h), (fun h => nomatch h)⟩
  · have hflight : ∀ x : Primary β, { s.commitBatch i p f x with flight := [] } = s.commitBatch i p f x := by
      intro x
      simp [Shared.commitBatch, Shared.move, ← hf]
    cases hx with
    | batch hx =>
      refine ⟨hflight _ ▸ hs.commitBatch hp he hx i, .commitBatch hs hp he hd hx i, (fun h => nomatch h), fun _ => ?_⟩
      exact ⟨_, List.mem_append_right _ (List.mem_singleton_self _), rfl, rfl, rfl⟩
    | batchAborted hx => exact ⟨hs, .refl i s, fun _ => ⟨hp, he, hf, hd⟩, (fun h => nomatch h)⟩
    | batchLost hx =>
      exact ⟨hflight _ ▸ hs.commitBatch hp he hx i, .commitBatch hs hp he hd hx i, (fun h => nomatch h),
        (fun h => nomatch h)⟩
    | batchFlies => exact ⟨hs.flies hp he hd hf _, .flies hd _, (fun h => nomatch h), (fun h => nomatch h)⟩

theorem spec_fence (p : Permit) : Spec authority i (Own (β := β) i p) (WorkStore.fence p) fun _ _ => True := by
  refine Ensures.query (fun _ => .const True) fun s x s' hs ⟨hp, he, hf, hd⟩ hx => ?_
  have hflight : ∀ x : Primary β, { s.commitFence p x with flight := [] } = s.commitFence p x := by
    intro x
    have : (s.commitFence p x).flight = [] := by
      unfold Shared.commitFence
      split
      · exact hf
      · exact hf
    rw [← this]
  cases hx with
  | fence hx => exact ⟨hflight _ ▸ hs.commitFence hp he hx, .commitFence hs hp he hd hx, fun _ _ => trivial⟩
  | fenceLost e hx => exact ⟨hflight _ ▸ hs.commitFence hp he hx, .commitFence hs hp he hd hx, fun _ _ => trivial⟩
  | fenceFlies e => exact ⟨hs.flies hp he hd hf _, .flies hd _, fun _ _ => trivial⟩

end

/-! ## The rules for the calls -/

theorem spec_currentAuthorityCheckpoint {P : Shared ι β → Prop} :
    Spec authority i P WorkStore.currentAuthorityCheckpoint fun _ s => Shared.Sound i s := by
  unfold WorkStore.currentAuthorityCheckpoint
  have hread : Spec authority i (fun _ : Shared ι β => True) WorkStore.primaryCheckpoint _ :=
    spec_primaryCheckpoint (.const True) fun _ _ => trivial
  refine (hread.weaken fun _ _ _ => trivial).bind fun c => ?_
  have hstatus : Spec authority i (fun s : Shared ι β => True ∧ Seen c s ∧ (Shared.Sound i s ∨ Behind c s))
      WorkStore.status fun st s => st.checkpoint = c → st.pending = none → Shared.Sound i s := by
    refine spec_status (fun st s s' hs hs' h hr h1 h2 => sound_lasting.stable i s s' hs hs' (h h1 h2) hr) ?_
    rintro s hs ⟨-, -, hb | hb | ⟨p, hp, -⟩⟩ hc hn
    · exact hb
    · rw [hc] at hb
      exact absurd hb (lt_irrefl _)
    · rw [hn] at hp
      cases hp
  refine hstatus.bind fun st => Ensures.bind .fails fun _ => ?_
  have hkeep : ∀ s : Shared ι β, (st.checkpoint = c → st.pending = none → Shared.Sound i s) ∧
      ¬(st.frozen = true ∨ st.pending.isSome = true ∨ st.releaseFloor = 0 ∨ st.releaseFloor > release ∨
        st.checkpoint ≠ c) → Shared.Sound i s := by
    rintro s ⟨h, hn⟩
    simp only [not_or, not_not, Bool.not_eq_true, Option.isSome_eq_false_iff, Option.isNone_iff_eq_none] at hn
    exact h hn.2.2.2.2 hn.2.1
  have htail : Spec authority i (Shared.Sound i) (do
      WorkStore.validateCheckpoint st.checkpoint
      return c : Store β Checkpoint) fun _ s => Shared.Sound i s :=
    (spec_validateCheckpoint _).bind fun _ => .pure fun _ _ h => h
  cases st.last with
  | none => exact htail.weaken fun s _ h => hkeep s h
  | some last => exact ((spec_validatePermit last).weaken fun s _ h => hkeep s h).bind fun _ => htail

/-- The fence belongs to the client that holds the permit. -/
theorem spec_fenced (p : Permit) (abort : Bool) (c : Checkpoint) :
    Spec authority i (fun s : Shared ι β => (abort = true → Own i p s) ∧ Seen c s) (WorkStore.fenced p abort c)
      Seen := by
  unfold WorkStore.fenced
  by_cases hc : c = p.previous
  · rw [if_pos hc]
    refine Ensures.bind .fails fun _ => ?_
    refine ((spec_fence p).weaken ?_).bind fun _ => ?_
    · rintro s - ⟨⟨ho, -⟩, ha⟩
      exact ho (by simpa using ha)
    · exact (spec_primaryCheckpoint (.const True) fun _ _ => trivial).post fun c s _ h => h.2.1
  · rw [if_neg hc]
    exact .pure fun s _ h => h.2

theorem spec_settleCheckpoint (p : Permit) (abort : Bool) :
    Spec authority i (fun s : Shared ι β => abort = true → Own i p s) (WorkStore.settleCheckpoint p abort)
      fun _ s => p ∈ s.settled := by
  unfold WorkStore.settleCheckpoint
  refine (spec_validatePermit p).bind fun _ => ?_
  have hstable : Stable (world authority) contract i fun s : Shared ι β => abort = true → Own i p s :=
    fun s s' hs hs' h hr ha => own_stable p s s' hs hs' (h ha) hr
  refine (spec_primaryCheckpoint hstable fun _ h => h).bind fun c => ?_
  refine ((spec_fenced p abort c).weaken fun s _ h => ⟨h.1, h.2.1⟩).bind fun c => ?_
  refine Ensures.bind .fails fun _ => ?_
  refine ((spec_commit p c).weaken fun s _ h => h.1).bind fun d => ?_
  exact Ensures.post .fails fun _ _ _ h => h.1

/-- Settling what another client left takes no fence. -/
theorem spec_settlePending {P : Shared ι β → Prop} (p : Permit) :
    Spec authority i P (WorkStore.settleCheckpoint p false) fun _ s => p ∈ s.settled :=
  (spec_settleCheckpoint p false).weaken fun _ _ _ h => nomatch h

theorem spec_beginPermit {P : Shared ι β → Prop} :
    Spec authority i P WorkStore.beginPermit fun r s => Own i r.1 s ∧ Shared.Sound i s := by
  unfold WorkStore.beginPermit
  have hread : Spec authority i (fun _ : Shared ι β => True) WorkStore.primaryCheckpoint _ :=
    spec_primaryCheckpoint (.const True) fun _ _ => trivial
  refine (hread.weaken fun _ _ _ => trivial).bind fun expected => ?_
  have hlasting : Lasting (world authority) contract fun s : Shared ι β =>
      True ∧ Seen expected s ∧ (Shared.Sound i s ∨ Behind expected s) := by
    intro s s' hs hs' hr ⟨_, h1, h2⟩
    refine ⟨trivial, seen_lasting expected s s' hs hs' hr h1, ?_⟩
    rcases h2 with h2 | h2
    · exact .inl (sound_lasting s s' hs hs' hr h2)
    · exact .inr (behind_lasting expected s s' hs hs' hr h2)
  have hdraw : Spec authority i (fun s : Shared ι β => True ∧ Seen expected s ∧ (Shared.Sound i s ∨ Behind expected s))
      WorkStore.opaqueId fun operation s => Mine i operation s ∧ (Shared.Sound i s ∨ Behind expected s) :=
    ((spec_opaqueId.frame hlasting).weaken fun s _ h => ⟨h, h⟩).post fun _ _ _ h => ⟨h.1, h.2.2.2⟩
  refine hdraw.bind fun operation => ?_
  refine (spec_begin expected operation).attempt.bind fun first => ?_
  cases first with
  | ok p => exact .pure fun s _ h => h p rfl
  | error e =>
    change Spec authority i _ (WorkStore.retryBegin e) _
    unfold WorkStore.retryBegin
    have hstatus : Spec authority i (fun _ : Shared ι β => True) WorkStore.status fun _ _ => True :=
      spec_status (fun _ => .const True) fun _ _ _ => trivial
    refine (hstatus.attempt.weaken fun _ _ _ => trivial).bind fun state => ?_
    cases state with
    | error _ => exact .throw
    | ok state =>
      cases hp : state.pending with
      | none => simp only [hp]; exact .throw
      | some pending =>
        simp only [hp]
        refine (spec_settlePending pending).bind fun _ => spec_currentAuthorityCheckpoint.bind fun c => ?_
        refine ((spec_opaqueId.frame sound_lasting).weaken fun s _ h => ⟨h, h⟩).bind fun operation => ?_
        refine ((spec_begin c operation).weaken fun s _ h => ⟨h.1, .inl h.2⟩).bind fun p => ?_
        exact .pure fun s _ h => h

/-- A successful batch committed under a permit that the object has committed. -/
def BatchDone (i : ι) (statements : β → Option β) (s : Shared ι β) : Prop :=
  ∃ c ∈ s.commits, c.caller = i ∧ c.statements = statements ∧ c.permit ∈ s.settled

theorem spec_checkpointBatch {P : Shared ι β → Prop} (f : β → Option β) :
    Spec authority i P (WorkStore.checkpointBatch f) fun _ s => BatchDone i f s ∧ Shared.Sound i s := by
  unfold WorkStore.checkpointBatch
  refine spec_beginPermit.bind fun r => ?_
  obtain ⟨p, expected, operation⟩ := r
  refine (spec_validatePermit p).bind fun _ => Ensures.bind .fails fun _ => ?_
  refine (((spec_batch p f).frame sound_lasting).weaken fun s _ h => ⟨h.1.1, h.1.2⟩).bind fun result => ?_
  have hframe : Lasting (world authority) contract fun s : Shared ι β =>
      (result = .committed → Committed i f p s) ∧ Shared.Sound i s := by
    intro s s' hs hs' hr ⟨h1, h2⟩
    exact ⟨fun h => committed_lasting f p s s' hs hs' hr (h1 h), sound_lasting s s' hs hs' hr h2⟩
  refine (((spec_settleCheckpoint p (result == .aborted)).frame hframe).weaken ?_).bind fun _ => ?_
  · rintro s - ⟨⟨h1, h2⟩, h3⟩
    exact ⟨fun h => h1 (by simpa using h), h2, h3⟩
  · cases result with
    | committed =>
      refine .pure ?_
      rintro s - ⟨hset, hcom, hsound⟩
      obtain ⟨c, hc, hi, hp, hf⟩ := hcom rfl
      exact ⟨⟨c, hc, hi, hf, hp ▸ hset⟩, hsound⟩
    | aborted => exact .throw
    | lost => exact .throw

theorem spec_reconcileAuthorityCheckpoint {P : Shared ι β → Prop} :
    Spec authority i P WorkStore.reconcileAuthorityCheckpoint fun _ s => Shared.Sound i s := by
  unfold WorkStore.reconcileAuthorityCheckpoint
  have hstatus : Spec authority i P WorkStore.status fun (_ : State) (_ : Shared ι β) => True :=
    spec_status (fun _ => .const True) fun _ _ _ => trivial
  refine hstatus.bind fun s => ?_
  cases s.pending with
  | none => exact spec_currentAuthorityCheckpoint
  | some p => exact (spec_settlePending p).bind fun _ => spec_currentAuthorityCheckpoint

/-! ## Every run -/

/-- What a call leaves: a success saw the primary not behind, and a successful batch is done. -/
def Returned (i : ι) (r : Except StoreError (Outcome β)) (s : Shared ι β) : Prop :=
  ∀ o, r = .ok o → Shared.Sound i s ∧ ∀ f, o = .batch f → BatchDone i f s

theorem clients_sound : Concurrent.Sound (world authority) contract (fun _ => Entry (β := β)) (Returned (ι := ι)) := by
  refine ⟨fun s s' hs he => Shared.Inv.env hs he, fun i s s' hs hs' hf hr => ?_, fun i p hp => ?_⟩
  · rcases hr with he | ⟨j, hj, hg⟩
    · cases he with
      | lateFence hf' hst hx =>
        unfold Shared.commitFence
        split
        · exact hf
        · exact hf
      | _ => exact hf
    · intro hi
      rcases hg.newReads i hi with h | ⟨h, -⟩
      · exact hf h
      · exact hj h.symm
  · cases hp with
    | batch f =>
      refine (spec_checkpointBatch f).bind fun _ => .pure ?_
      rintro s - ⟨hd, hsound⟩
      refine ⟨hsound, ?_⟩
      rintro g ⟨⟩
      exact hd
    | reconcile => exact spec_reconcileAuthorityCheckpoint.bind fun _ => .pure fun s _ h => ⟨h, fun _ hf => nomatch hf⟩
    | current => exact spec_currentAuthorityCheckpoint.bind fun _ => .pure fun s _ h => ⟨h, fun _ hf => nomatch hf⟩

theorem enrolled_good (x : Primary β) (floor : Nat) :
    Good (world authority) contract Returned (.initial (Shared.enrolled (ι := ι) x floor)) := by
  refine Good.initial ?_ fun i hi => nomatch hi
  constructor
  all_goals simp [Shared.enrolled]

section
variable [DecidableEq ι]

/-- The runs of any number of clients. -/
abbrev Runs (authority : String) (c d : Config ι (Shared ι β) (Request β) Request.Reply (Except StoreError (Outcome β))) :
    Prop := Steps (world authority) (fun _ => Entry) c d

/-- Until the next restore, a primary that is behind stays as it is, and nobody who starts reads a sound marker. -/
theorem quarantine_lasts {c d : Config ι (Shared ι β) (Request β) Request.Reply (Except StoreError (Outcome β))}
    (hc : Good (world authority) contract Returned c) (hq : c.state.Quarantined) (hd : Runs authority c d)
    (hr : d.state.restores = c.state.restores) :
    d.state.primary = c.state.primary ∧ d.state.commits = c.state.commits ∧ d.state.Quarantined ∧
      ∀ i, i ∉ c.state.soundReads → i ∉ d.state.soundReads := by
  have key : c.state.restores ≤ d.state.restores ∧ (d.state.restores = c.state.restores →
      d.state.primary = c.state.primary ∧ d.state.commits = c.state.commits ∧ d.state.Quarantined ∧
        ∀ i, i ∉ c.state.soundReads → i ∉ d.state.soundReads) := by
    refine hc.steps_invariant clients_sound hd (J := fun s => c.state.restores ≤ s.restores ∧
      (s.restores = c.state.restores → s.primary = c.state.primary ∧ s.commits = c.state.commits ∧ s.Quarantined ∧
        ∀ i, i ∉ c.state.soundReads → i ∉ s.soundReads)) ?_ ?_ ⟨le_refl _, fun _ => ⟨rfl, rfl, hq, fun _ h => h⟩⟩
    · rintro i s s' hs ⟨hle, hj⟩ hg
      refine ⟨hg.restores ▸ hle, fun he => ?_⟩
      obtain ⟨h1, h2, h3, h4⟩ := hj (hg.restores ▸ he)
      obtain ⟨g1, g2, g3⟩ := hg.quarantined h3
      refine ⟨g1.trans h1, g2.trans h2, g3, fun k hk hk' => ?_⟩
      rcases hg.newReads k hk' with h | ⟨-, h⟩
      · exact h4 k hk h
      · exact h h3
    · rintro s s' hs ⟨hle, hj⟩ henv
      have hmono : s.restores ≤ s'.restores ∧ s'.soundReads = s.soundReads := by
        cases henv with
        | lateFence hf hst hx =>
          unfold Shared.commitFence
          split
          · exact ⟨le_refl _, rfl⟩
          · exact ⟨le_refl _, rfl⟩
        | restore hx => exact ⟨Nat.le_succ _, rfl⟩
        | _ => exact ⟨le_refl _, rfl⟩
      refine ⟨hle.trans hmono.1, fun he => ?_⟩
      have hsame : s'.restores = s.restores := by omega
      obtain ⟨h1, h2, h3, h4⟩ := hj (hsame ▸ he)
      obtain ⟨g1, g2, g3⟩ := Shared.Env.quarantined hs h3 henv hsame
      exact ⟨g1.trans h1, g2.trans h2, g3, fun k hk => hmono.2 ▸ h4 k hk⟩
  exact key.2 hr

/-- In every run from an enrolled authority: the statements of a permit commit at most once; a batch that returns
committed its statements under a permit that the object committed; under a permit whose fence moved the marker nothing
commits; without a restore the marker is the object's checkpoint or the next one of its pending permit; and from a
restore behind the object until another one nothing commits, and no call that starts there succeeds. -/
theorem write_ahead (x : Primary β) (floor : Nat)
    {c : Config ι (Shared ι β) (Request β) Request.Reply (Except StoreError (Outcome β))}
    (hc : Runs authority (.initial (Shared.enrolled x floor)) c) :
    (c.state.commits.map Commit.permit).Nodup ∧
    (∀ i f, c.callers i = some (.ret (.ok (.batch f))) → ∃ k ∈ c.state.commits,
      k.caller = i ∧ k.statements = f ∧ f k.before = some k.after ∧ k.permit ∈ c.state.settled) ∧
    (∀ p ∈ c.state.fences, ∀ k ∈ c.state.commits, k.permit ≠ p) ∧
    (c.state.restores = 0 → c.state.primary.marker = c.state.object.checkpoint ∨
      ∃ p, c.state.object.pending = some p ∧ c.state.primary.marker = p.next) ∧
    (c.state.Quarantined → ∀ d, Runs authority c d → d.state.restores = c.state.restores →
      d.state.primary = c.state.primary ∧ d.state.commits = c.state.commits ∧ d.state.Quarantined ∧
        ∀ i o, c.callers i = none → d.callers i ≠ some (.ret (.ok o))) := by
  have hgood := (enrolled_good x floor).steps clients_sound hc
  have hinv : Shared.Inv c.state := hgood.1
  refine ⟨hinv.distinct, fun i f hi => ?_, fun p hp => (hinv.fences p hp).2, fun hr => ?_, fun hq d hd hr => ?_⟩
  · obtain ⟨k, hk, hki, hkf, hks⟩ := (hgood.returned hi (.batch f) rfl).2 f rfl
    exact ⟨k, hk, hki, hkf, hkf ▸ (hinv.commits k hk).2, hks⟩
  · rcases hinv.marker hr with ⟨h, -⟩ | h
    · exact .inl h
    · exact .inr h
  · obtain ⟨h1, h2, h3, h4⟩ := quarantine_lasts hgood hq hd hr
    refine ⟨h1, h2, h3, fun i o hi hdi => ?_⟩
    have hfresh := hgood.2 i
    rw [hi] at hfresh
    exact h4 i hfresh ((hgood.steps clients_sound hd).returned hdi o rfl).1

end

/-- A client has read the marker, then the primary is restored. -/
theorem write_ahead_restored :
    ∃ c : Config Nat (Shared Nat Nat) (Request Nat) Request.Reply (Except StoreError (Outcome Nat)),
      Runs "a" (.initial (Shared.enrolled ⟨⟨"a", "e", 0, "t"⟩, 0⟩ 1)) c ∧ c.state.restores = 1 ∧
        c.state.soundReads = [0] ∧ (c.state.commits.map Commit.permit).Nodup := by
  have hrun : ∃ c : Config Nat (Shared Nat Nat) (Request Nat) Request.Reply (Except StoreError (Outcome Nat)),
      Runs "a" (.initial (Shared.enrolled ⟨⟨"a", "e", 0, "t"⟩, 0⟩ 1)) c ∧ c.state.restores = 1 ∧
        c.state.soundReads = [0] := by
    have hstart : Runs "a" (.initial (Shared.enrolled ⟨⟨"a", "e", 0, "t"⟩, 0⟩ 1)) _ :=
      .single (.start (i := 0) rfl (.batch fun n : Nat => some (n + 1)))
    have hsound : ¬(Shared.enrolled ⟨⟨"a", "e", 0, "t"⟩, 0⟩ 1 : Shared Nat Nat).Quarantined := by
      simp [Shared.Quarantined, Shared.enrolled]
    have hread := hstart.tail (.call (i := 0) rfl (.readSound hsound))
    exact ⟨_, hread.tail (.env (.restore List.mem_cons_self)), rfl, rfl⟩
  obtain ⟨c, hc, hr, hs⟩ := hrun
  exact ⟨c, hc, hr, hs, (write_ahead _ _ hc).1⟩

end Mikaki.WorkCheckpoint
