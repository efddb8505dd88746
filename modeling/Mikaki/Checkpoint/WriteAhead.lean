import Mikaki.Checkpoint.Client

/-!
# The write-ahead protocol is safe

A permit is pending from the moment the object makes it until its marker is
published. Only the client that drew its operation identifier runs a batch or
a fence under it, and the first of these to commit moves the marker, so that
no other can. What a client learns is that the primary was at a marker; a
marker that is behind the object never gets a permit.
-/

namespace Mikaki.WorkCheckpoint

open Checks Concurrent Concurrent.Prog

variable {ι β : Type}

/-- The next marker of a permit is one step on. -/
def Permit.Advances (p : Permit) : Prop :=
  p.next.authority = p.previous.authority ∧ p.next.epoch = p.previous.epoch ∧ p.next.sequence = p.previous.sequence + 1

/-! ## One statement of the primary -/

theorem checkpointStep_eq_some {p : Permit} {x y : Primary β} {n : Nat} (h : checkpointStep p x = some (n, y)) :
    (x.marker = p.previous ∧ n = 1 ∧ y.data = x.data ∧ (p.Advances → y.marker = p.next)) ∨
      (x.marker ≠ p.previous ∧ n = 0 ∧ y = x) := by
  unfold checkpointStep at h
  by_cases hm : x.marker = p.previous
  · rw [if_pos hm] at h
    by_cases hn : p.next.sequence ≠ x.marker.sequence + 1 ∨ p.next.tip = x.marker.tip
    · rw [if_pos hn] at h
      cases h
    · rw [if_neg hn] at h
      cases h
      refine .inl ⟨hm, rfl, rfl, fun ha => ?_⟩
      obtain ⟨h1, h2, -⟩ := ha
      simp [hm, ← h1, ← h2]
  · rw [if_neg hm] at h
    cases h
    exact .inr ⟨hm, rfl, rfl⟩

theorem runBatch_eq_some {p : Permit} {f : β → Option β} {x y : Primary β} (h : runBatch p f x = some y) :
    x.marker = p.previous ∧ f x.data = some y.data ∧ (p.Advances → y.marker = p.next) := by
  unfold runBatch at h
  split at h
  · rename_i z hz
    obtain ⟨hm, -, hd, ha⟩ | ⟨-, hn, -⟩ := checkpointStep_eq_some hz
    · simp only [Option.map_eq_some_iff] at h
      obtain ⟨d, hf, rfl⟩ := h
      exact ⟨hm, hd ▸ hf, ha⟩
    · cases hn
  · cases h

theorem runFence_eq_some {p : Permit} {x y : Primary β} (h : runFence p x = some y) :
    (x.marker = p.previous ∧ y.data = x.data ∧ (p.Advances → y.marker = p.next)) ∨ (x.marker ≠ p.previous ∧ y = x) := by
  unfold runFence at h
  simp only [Option.map_eq_some_iff] at h
  obtain ⟨⟨n, z⟩, hz, rfl⟩ := h
  obtain ⟨hm, -, hd, ha⟩ | ⟨hm, -, he⟩ := checkpointStep_eq_some hz
  · exact .inl ⟨hm, hd, ha⟩
  · exact .inr ⟨hm, he⟩

/-! ## The object's calls -/

theorem begin_eq_ok {authority operation tip : String} {s o : State} {c : Checkpoint} {n : Nat} {p : Permit}
    (h : s.begin authority c operation n tip = .ok (p, o)) :
    (s.pending = some p ∧ p.operation = operation ∧ p.previous = c ∧ o = s) ∨
      (s.pending = none ∧ s.checkpoint = c ∧ p = State.permitFor c operation tip ∧ o = { s with pending := some p }) := by
  unfold State.begin at h
  simp only [bind_eq_ok] at h
  obtain ⟨_, -, _, -, _, -, h⟩ := h
  cases hp : s.pending with
  | some q =>
    simp only [hp] at h
    split at h
    · rename_i hq
      cases h
      exact .inl ⟨rfl, hq.1, hq.2, rfl⟩
    · cases h
  | none =>
    simp only [hp, bind_eq_ok, denyIf_eq_ok, pure_eq_ok] at h
    obtain ⟨_, hc, h⟩ := h
    cases h
    exact .inr ⟨rfl, by simp only [not_or, not_not] at hc; exact hc.1, rfl, rfl⟩

theorem permitFor_advances (c : Checkpoint) (operation tip : String) : (State.permitFor c operation tip).Advances :=
  ⟨rfl, rfl, rfl⟩

theorem commit_eq_ok {s o : State} {p : Permit} {c d : Checkpoint} {n : Nat} (h : s.commit p c n = .ok (d, o)) :
    c = p.next ∧ ((s.pending = none ∧ o = s) ∨
      (s.pending = some p ∧ o = { s with checkpoint := p.next, last := some p, pending := none })) := by
  unfold State.commit at h
  simp only [bind_eq_ok, denyIf_eq_ok] at h
  obtain ⟨_, -, _, -, _, -, _, hc, h⟩ := h
  refine ⟨not_not.mp hc, ?_⟩
  cases hp : s.pending with
  | none =>
    simp only [hp] at h
    split at h
    · cases h
      exact .inl ⟨rfl, rfl⟩
    · cases h
  | some q =>
    simp only [hp, bind_eq_ok, denyIf_eq_ok, pure_eq_ok] at h
    obtain ⟨_, hq, h⟩ := h
    cases h
    exact .inr ⟨congrArg some (not_not.mp hq), rfl⟩

namespace Shared

/-! ## The invariant -/

/-- The operation identifier of the permit was drawn by the client. -/
def Drawn (s : Shared ι β) (i : ι) (p : Permit) : Prop := (p.operation, i) ∈ s.operations

/-- The primary was seen at this marker. -/
def Seen (c : Checkpoint) (s : Shared ι β) : Prop := ∃ x ∈ s.snapshots, x.marker = c

/-- The marker is before the object's checkpoint, or before a pending permit that was executed. -/
def Behind (c : Checkpoint) (s : Shared ι β) : Prop :=
  c.sequence < s.object.checkpoint.sequence ∨ ∃ p, s.object.pending = some p ∧ s.Executed p ∧ c = p.previous

structure Inv (s : Shared ι β) : Prop where
  advances : ∀ p, s.object.pending = some p → p.previous = s.object.checkpoint ∧ p.Advances
  drawn : ∀ p, s.object.pending = some p → ∃ i, s.Drawn i p
  unique : ∀ o i j, (o, i) ∈ s.operations → (o, j) ∈ s.operations → i = j
  snapshots : ∀ x ∈ s.snapshots, x.marker.sequence ≤ s.object.checkpoint.sequence ∨
    ∃ p, s.object.pending = some p ∧ x.marker = p.next
  primary : s.primary ∈ s.snapshots
  flight : ∀ f ∈ s.flight, s.object.pending = some f.permit ∧ ¬s.Executed f.permit ∧ s.Drawn f.caller f.permit
  single : s.flight.length ≤ 1
  commits : ∀ c ∈ s.commits, s.Executed c.permit ∧ c.statements c.before = some c.after
  distinct : (s.commits.map Commit.permit).Nodup
  fences : ∀ p ∈ s.fences, s.Executed p ∧ ∀ c ∈ s.commits, c.permit ≠ p
  settled : ∀ p ∈ s.settled, s.Executed p
  marker : s.restores = 0 → (s.primary.marker = s.object.checkpoint ∧
    ∀ p, s.object.pending = some p → ¬s.Executed p) ∨ ∃ p, s.object.pending = some p ∧ s.primary.marker = p.next

/-- What no step takes back. -/
structure Grows (s s' : Shared ι β) : Prop where
  snapshots : ∀ x ∈ s.snapshots, x ∈ s'.snapshots
  commits : ∀ c ∈ s.commits, c ∈ s'.commits
  settled : ∀ p ∈ s.settled, p ∈ s'.settled
  reads : ∀ i ∈ s.soundReads, i ∈ s'.soundReads
  sequence : s.object.checkpoint.sequence ≤ s'.object.checkpoint.sequence
  pending : ∀ p, s.object.pending = some p → s'.object.pending = some p ∨
    (s.Executed p ∧ p.next.sequence ≤ s'.object.checkpoint.sequence)

/-- What a step of client `i` does. -/
structure Guar (i : ι) (s s' : Shared ι β) : Prop extends Grows s s' where
  operations : ∀ o ∈ s.operations, o ∈ s'.operations
  begun : ∀ p, s'.object.pending = some p → s.object.pending = some p ∨ s.Drawn i p
  executed : ∀ p, s.object.pending = some p → s'.Executed p → s.Executed p ∨ s.Drawn i p
  flights : ∀ f ∈ s'.flight, f ∈ s.flight ∨ s.Drawn i f.permit
  newReads : ∀ j ∈ s'.soundReads, j ∈ s.soundReads ∨ (j = i ∧ ¬s.Quarantined)
  restores : s'.restores = s.restores
  quarantined : s.Quarantined → s'.primary = s.primary ∧ s'.commits = s.commits ∧ s'.Quarantined

variable {s s' : Shared ι β} {i : ι} {p q : Permit} {x : Primary β}

theorem Executed.mono (h : s.Executed p) (hs : ∀ y ∈ s.snapshots, y ∈ s'.snapshots) : s'.Executed p := by
  obtain ⟨y, hy, hm⟩ := h
  exact ⟨y, hs y hy, hm⟩

theorem Grows.refl (s : Shared ι β) : Grows s s := by
  constructor
  case pending => exact fun p hp => .inl hp
  all_goals simp

theorem Guar.refl (i : ι) (s : Shared ι β) : Guar i s s := by
  refine ⟨.refl s, ?operations, ?begun, ?executed, ?flights, ?newReads, ?restores, ?quarantined⟩
  case begun => exact fun p hp => .inl hp
  case executed => exact fun p _ hp => .inl hp
  case flights => exact fun f hf => .inl hf
  case newReads => exact fun j hj => .inl hj
  case quarantined => exact fun h => ⟨rfl, rfl, h⟩
  all_goals simp

theorem quarantined_iff : s.Quarantined ↔ Behind s.primary.marker s := by
  unfold Quarantined Behind
  refine or_congr Iff.rfl (exists_congr fun p => ?_)
  constructor
  · rintro ⟨h1, h2, h3⟩; exact ⟨h1, h3, h2⟩
  · rintro ⟨h1, h2, h3⟩; exact ⟨h1, h3, h2⟩

theorem Behind.grows {c : Checkpoint} (hs : s.Inv) (h : Behind c s) (hg : Grows s s') : Behind c s' := by
  obtain h | ⟨p, hp, he, rfl⟩ := h
  · exact .inl (h.trans_le hg.sequence)
  · rcases hg.pending p hp with hp' | ⟨-, hq⟩
    · exact .inr ⟨p, hp', he.mono hg.snapshots, rfl⟩
    · have := (hs.advances p hp).2.2.2
      exact .inl (by omega)

/-- A permit that is pending and was not executed has left no marker. -/
theorem Inv.marker_of_pending (hs : s.Inv) (hp : s.object.pending = some p) (he : ¬s.Executed p) {y : Primary β}
    (hy : y ∈ s.snapshots) : y.marker.sequence ≤ s.object.checkpoint.sequence := by
  rcases hs.snapshots y hy with h | ⟨q, hq, hm⟩
  · exact h
  · rw [hp] at hq
    cases hq
    exact absurd ⟨y, hy, hm⟩ he

theorem Inv.not_executed_of_begun (hs : s.Inv) (hn : s.object.pending = none) (hp : p.Advances)
    (hc : p.previous = s.object.checkpoint) : ¬s.Executed p := by
  rintro ⟨y, hy, hm⟩
  have hseq := hp.2.2
  rw [hc, ← hm] at hseq
  rcases hs.snapshots y hy with h | ⟨q, hq, -⟩
  · omega
  · rw [hn] at hq
    cases hq

/-! ## Steps of the primary -/

theorem executed_move : (s.move x).Executed q ↔ x.marker = q.next ∨ s.Executed q := by
  unfold Executed move
  simp

theorem Grows.move (s : Shared ι β) (x : Primary β) : Grows s (s.move x) := by
  constructor
  case snapshots => exact fun y hy => List.mem_cons_of_mem _ hy
  case pending => exact fun p hp => .inl hp
  all_goals simp [Shared.move]

/-- The first statements under a permit move the primary. -/
theorem Inv.move (hs : s.Inv) (hp : s.object.pending = some p) (hx : x.marker = p.next) :
    Inv { s.move x with flight := [] } := by
  constructor
  case snapshots =>
    intro y hy
    rcases List.mem_cons.mp hy with rfl | hy
    · exact .inr ⟨p, hp, hx⟩
    · exact hs.snapshots y hy
  case primary => exact List.mem_cons_self
  case flight => exact fun f hf => nomatch hf
  case single => exact Nat.zero_le 1
  case commits => exact fun c hc => ⟨(hs.commits c hc).1.mono fun _ => List.mem_cons_of_mem x, (hs.commits c hc).2⟩
  case fences => exact fun q hq => ⟨(hs.fences q hq).1.mono fun _ => List.mem_cons_of_mem x, (hs.fences q hq).2⟩
  case settled => exact fun q hq => (hs.settled q hq).mono fun _ => List.mem_cons_of_mem x
  case marker => exact fun _ => .inr ⟨p, hp, hx⟩
  case advances => exact hs.advances
  case drawn => exact hs.drawn
  case unique => exact hs.unique
  case distinct => exact hs.distinct

theorem Inv.commitBatch (hs : s.Inv) (hp : s.object.pending = some p) (he : ¬s.Executed p) {f : β → Option β}
    (hx : runBatch p f s.primary = some x) (j : ι) : Inv { s.commitBatch j p f x with flight := [] } := by
  obtain ⟨-, hf, hm⟩ := runBatch_eq_some hx
  have hmove := hs.move hp (hm (hs.advances p hp).2)
  have hmem : ∀ c ∈ (s.commitBatch j p f x).commits, c ∈ s.commits ∨ c = ⟨j, p, f, s.primary.data, x.data⟩ := by
    intro c hc
    simpa [Shared.commitBatch, Shared.move] using hc
  refine { hmove with commits := ?_, distinct := ?_, fences := ?_ }
  · intro c hc
    rcases hmem c hc with hc | rfl
    · exact hmove.commits c hc
    · exact ⟨⟨x, List.mem_cons_self, hm (hs.advances p hp).2⟩, hf⟩
  · simp only [Shared.commitBatch, Shared.move, List.map_append, List.map_cons, List.map_nil]
    rw [List.nodup_append]
    refine ⟨hs.distinct, by simp, fun a ha b hb => ?_⟩
    obtain ⟨c, hc, rfl⟩ := List.mem_map.mp ha
    rw [List.mem_singleton] at hb
    rintro rfl
    exact he (hb ▸ (hs.commits c hc).1)
  · intro q hq
    refine ⟨(hmove.fences q hq).1, fun c hc => ?_⟩
    rcases hmem c hc with hc | rfl
    · exact (hs.fences q hq).2 c hc
    · rintro rfl
      exact he (hs.fences _ hq).1

theorem Inv.commitFence (hs : s.Inv) (hp : s.object.pending = some p) (he : ¬s.Executed p)
    (hx : runFence p s.primary = some x) : Inv { s.commitFence p x with flight := [] } := by
  unfold Shared.commitFence
  obtain ⟨hprev, -, hm⟩ | ⟨-, rfl⟩ := runFence_eq_some hx
  · have hadv := (hs.advances p hp).2
    have hne : x.marker ≠ s.primary.marker := by
      rw [hm hadv, hprev]
      intro e
      have := hadv.2.2
      rw [e] at this
      omega
    rw [if_neg hne]
    have hmove := hs.move hp (hm hadv)
    refine { hmove with fences := ?_ }
    intro q hq
    rcases List.mem_cons.mp hq with rfl | hq
    · refine ⟨⟨x, List.mem_cons_self, hm hadv⟩, fun c hc e => he (e ▸ (hs.commits c hc).1)⟩
    · exact hmove.fences q hq
  · rw [if_pos rfl]
    refine { hs with flight := ?_, single := Nat.zero_le 1 }
    exact fun f hf => nomatch hf

theorem not_quarantined (hs : s.Inv) (hp : s.object.pending = some p) (he : ¬s.Executed p)
    (hm : s.primary.marker = p.previous) : ¬s.Quarantined := by
  rintro (h | ⟨q, hq, -, hqe⟩)
  · rw [hm, (hs.advances p hp).1] at h
    exact absurd h (lt_irrefl _)
  · rw [hp] at hq
    cases hq
    exact he hqe

theorem Guar.commitBatch (hs : s.Inv) (hp : s.object.pending = some p) (he : ¬s.Executed p) (hd : s.Drawn i p)
    {f : β → Option β} (hx : runBatch p f s.primary = some x) (j : ι) : Guar i s (s.commitBatch j p f x) := by
  refine ⟨{ Grows.move s x with commits := ?_ }, ?operations, ?begun, ?executed, ?flights, ?newReads, ?restores,
    ?quarantined⟩
  · exact fun c hc => List.mem_append_left _ hc
  case operations => exact fun o ho => ho
  case begun => exact fun q hq => .inl hq
  case executed =>
    intro q hq _
    rw [hp] at hq
    cases hq
    exact .inr hd
  case flights => exact fun g hg => .inl hg
  case newReads => exact fun k hk => .inl hk
  case restores => rfl
  case quarantined => exact fun h => absurd h (not_quarantined hs hp he (runBatch_eq_some hx).1)

theorem Guar.commitFence (hs : s.Inv) (hp : s.object.pending = some p) (he : ¬s.Executed p) (hd : s.Drawn i p)
    (hx : runFence p s.primary = some x) : Guar i s (s.commitFence p x) := by
  unfold Shared.commitFence
  by_cases hm : x.marker = s.primary.marker
  · rw [if_pos hm]
    exact .refl i s
  · rw [if_neg hm]
    refine ⟨{ Grows.move s x with }, ?operations, ?begun, ?executed, ?flights, ?newReads, ?restores, ?quarantined⟩
    case operations => exact fun o ho => ho
    case begun => exact fun q hq => .inl hq
    case executed =>
      intro q hq _
      rw [hp] at hq
      cases hq
      exact .inr hd
    case flights => exact fun g hg => .inl hg
    case newReads => exact fun k hk => .inl hk
    case restores => rfl
    case quarantined =>
      intro h
      obtain ⟨hprev, -⟩ | ⟨-, rfl⟩ := runFence_eq_some hx
      · exact absurd h (not_quarantined hs hp he hprev)
      · exact absurd rfl hm

theorem Inv.flies (hs : s.Inv) (hp : s.object.pending = some p) (he : ¬s.Executed p) (hd : s.Drawn i p)
    (hf : s.flight = []) (f : Option (β → Option β)) : Inv { s with flight := ⟨i, p, f⟩ :: s.flight } := by
  refine { hs with flight := ?_, single := by simp [hf] }
  intro g hg
  simp only [hf, List.mem_singleton] at hg
  subst hg
  exact ⟨hp, he, hd⟩

theorem Guar.flies (hd : s.Drawn i p) (f : Option (β → Option β)) :
    Guar i s { s with flight := ⟨i, p, f⟩ :: s.flight } := by
  refine { Guar.refl i s with flights := ?_ }
  intro g hg
  rcases List.mem_cons.mp hg with rfl | hg
  · exact .inr hd
  · exact .inl hg

/-! ## Steps of the object -/

theorem Inv.begin (hs : s.Inv) (hn : s.object.pending = none) (ha : p.Advances) (hc : p.previous = s.object.checkpoint)
    (hd : s.Drawn i p) : Inv { s with object := { s.object with pending := some p } } := by
  have hne := hs.not_executed_of_begun hn ha hc
  refine { hs with advances := ?_, drawn := ?_, snapshots := ?_, flight := ?_, marker := ?_ }
  · rintro q ⟨⟩
    exact ⟨hc, ha⟩
  · rintro q ⟨⟩
    exact ⟨i, hd⟩
  · intro y hy
    rcases hs.snapshots y hy with h | ⟨q, hq, -⟩
    · exact .inl h
    · rw [hn] at hq
      cases hq
  · intro f hf
    have := (hs.flight f hf).1
    rw [hn] at this
    cases this
  · intro hr
    rcases hs.marker hr with ⟨hm, -⟩ | ⟨q, hq, -⟩
    · refine .inl ⟨hm, ?_⟩
      rintro q ⟨⟩
      exact hne
    · rw [hn] at hq
      cases hq

theorem Guar.begin (hn : s.object.pending = none) (hd : s.Drawn i p) :
    Guar i s { s with object := { s.object with pending := some p } } := by
  refine { Guar.refl i s with pending := ?_, begun := ?_, quarantined := ?_ }
  · intro q hq
    rw [hn] at hq
    cases hq
  · rintro q ⟨⟩
    exact .inr hd
  · rintro (h | ⟨q, hq, -⟩)
    · exact ⟨rfl, rfl, .inl h⟩
    · rw [hn] at hq
      cases hq

theorem Inv.settle (hs : s.Inv) (he : s.Executed p) : Inv { s with settled := p :: s.settled } := by
  refine { hs with settled := ?_ }
  intro q hq
  rcases List.mem_cons.mp hq with rfl | hq
  · exact he
  · exact hs.settled q hq

theorem Inv.commit (hs : s.Inv) (hp : s.object.pending = some p) (he : s.Executed p) :
    Inv { s with
      object := { s.object with checkpoint := p.next, last := some p, pending := none }
      settled := p :: s.settled } := by
  obtain ⟨hc, hadv⟩ := hs.advances p hp
  have hseq := hadv.2.2
  refine { hs.settle he with advances := ?_, drawn := ?_, snapshots := ?_, flight := ?_, marker := ?_ }
  · exact fun q hq => nomatch hq
  · exact fun q hq => nomatch hq
  · intro y hy
    rcases hs.snapshots y hy with h | ⟨q, hq, hm⟩
    · rw [← hc] at h
      exact .inl (by simp only; omega)
    · rw [hp] at hq
      cases hq
      exact .inl (by simp only [hm, le_refl])
  · intro f hf
    obtain ⟨h1, h2, -⟩ := hs.flight f hf
    rw [hp] at h1
    cases h1
    exact absurd he h2
  · intro hr
    rcases hs.marker hr with ⟨-, hm⟩ | ⟨q, hq, hm⟩
    · exact absurd he (hm p hp)
    · rw [hp] at hq
      cases hq
      exact .inl ⟨hm, fun q hq => nomatch hq⟩

theorem Guar.settle (i : ι) (s : Shared ι β) (p : Permit) : Guar i s { s with settled := p :: s.settled } :=
  { Guar.refl i s with settled := fun _ hq => List.mem_cons_of_mem _ hq }

theorem Guar.commit (hs : s.Inv) (hp : s.object.pending = some p) (he : s.Executed p) (i : ι) :
    Guar i s { s with
      object := { s.object with checkpoint := p.next, last := some p, pending := none }
      settled := p :: s.settled } := by
  obtain ⟨hc, hadv⟩ := hs.advances p hp
  have hseq := hadv.2.2
  refine { Guar.settle i s p with sequence := ?_, pending := ?_, begun := ?_, quarantined := ?_ }
  · rw [← hc]
    simp only
    omega
  · intro q hq
    rw [hp] at hq
    cases hq
    exact .inr ⟨he, le_refl _⟩
  · exact fun q hq => nomatch hq
  · intro h
    refine ⟨rfl, rfl, .inl ?_⟩
    simp only
    obtain h | ⟨q, hq, hm, -⟩ := h
    · rw [← hc] at h
      omega
    · rw [hp] at hq
      cases hq
      rw [hm]
      omega

/-! ## Steps that no client makes -/

theorem Inv.only_flight (hs : s.Inv) {f : Flight ι β} {before after : List (Flight ι β)}
    (hf : s.flight = before ++ f :: after) : before = [] ∧ after = [] := by
  have h := hs.single
  rw [hf, List.length_append, List.length_cons] at h
  exact ⟨List.eq_nil_of_length_eq_zero (by omega), List.eq_nil_of_length_eq_zero (by omega)⟩

theorem Inv.env (hs : s.Inv) (h : Env s s') : s'.Inv := by
  cases h with
  | @lateBatch f before after statements x hf hst hx =>
    obtain ⟨rfl, rfl⟩ := hs.only_flight hf
    obtain ⟨hp, he, -⟩ := hs.flight f (by rw [hf]; simp)
    exact hs.commitBatch hp he hx f.caller
  | @lateFence f before after x hf hst hx =>
    obtain ⟨rfl, rfl⟩ := hs.only_flight hf
    obtain ⟨hp, he, -⟩ := hs.flight f (by rw [hf]; simp)
    exact hs.commitFence hp he hx
  | @givenUp f before after hf =>
    obtain ⟨rfl, rfl⟩ := hs.only_flight hf
    exact { hs with flight := fun f hf => absurd hf List.not_mem_nil, single := Nat.zero_le 1 }
  | @raiseFloor value o ho =>
    simp only [State.raiseFloor, bind_eq_ok, pure_eq_ok] at ho
    obtain ⟨_, -, _, -, rfl⟩ := ho
    exact { hs with }
  | freeze => exact { hs with }
  | restore hx => exact { hs with primary := hx, marker := fun h => absurd h (Nat.succ_ne_zero _) }

theorem Grows.commitFence (s : Shared ι β) (p : Permit) (x : Primary β) : Grows s (s.commitFence p x) := by
  unfold Shared.commitFence
  by_cases hm : x.marker = s.primary.marker
  · rw [if_pos hm]
    exact .refl s
  · rw [if_neg hm]
    exact { Grows.move s x with }

theorem Grows.env (h : Env s s') : Grows s s' := by
  cases h with
  | lateBatch hf hst hx => exact { Grows.move s _ with commits := fun c hc => List.mem_append_left _ hc }
  | lateFence hf hst hx => exact { Grows.commitFence s _ _ with }
  | givenUp hf => exact { Grows.refl s with }
  | raiseFloor ho =>
    simp only [State.raiseFloor, bind_eq_ok, pure_eq_ok] at ho
    obtain ⟨_, -, _, -, rfl⟩ := ho
    exact { Grows.refl s with }
  | freeze => exact { Grows.refl s with }
  | restore hx => exact { Grows.refl s with }

/-- A late arrival finds the marker of its permit, and the primary is then not behind. -/
theorem Env.quarantined (hs : s.Inv) (hq : s.Quarantined) (h : Env s s') (hr : s'.restores = s.restores) :
    s'.primary = s.primary ∧ s'.commits = s.commits ∧ s'.Quarantined := by
  have hg := (quarantined_iff.mp hq).grows hs (.env h)
  cases h with
  | @lateBatch f before after statements x hf hst hx =>
    obtain ⟨hp, he, -⟩ := hs.flight f (by rw [hf]; simp)
    exact absurd hq (not_quarantined hs hp he (runBatch_eq_some hx).1)
  | @lateFence f before after x hf hst hx =>
    obtain ⟨hp, he, -⟩ := hs.flight f (by rw [hf]; simp)
    obtain ⟨hprev, -⟩ | ⟨-, rfl⟩ := runFence_eq_some hx
    · exact absurd hq (not_quarantined hs hp he hprev)
    · unfold Shared.commitFence at hg ⊢
      rw [if_pos rfl] at hg ⊢
      exact ⟨rfl, rfl, quarantined_iff.mpr hg⟩
  | givenUp hf => exact ⟨rfl, rfl, quarantined_iff.mpr hg⟩
  | raiseFloor ho => exact ⟨rfl, rfl, quarantined_iff.mpr hg⟩
  | freeze => exact ⟨rfl, rfl, quarantined_iff.mpr hg⟩
  | restore hx => simp at hr

end Shared

end Mikaki.WorkCheckpoint
