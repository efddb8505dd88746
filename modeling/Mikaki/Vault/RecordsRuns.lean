import Mikaki.Vault.RecordsSteps

/-!
# Records in every run

What the requests of any number of clients and the invocations of the collector
keep, in whatever order their steps come: a receipt for every batch until it is
old, and an object for every live head. The clocks of the parts differ by a
bounded time, and the keys of objects are drawn once.
-/

namespace Mikaki.Vault.Records

open Concurrent Concurrent.Prog Rows Transactions
open Browser (Bytes)

/-- How far the clocks of workers and of the bucket may be from the database's, in seconds. -/
def skew : Nat := 43000

section
variable {ι : Type}

/-- At this step the clocks agree up to the skew. -/
def Timely (e : Entry ι Db Tx) : Prop :=
  match e.tx with
  | .mark now => now ≤ e.before.clock + skew
  | .expire cutoff _ => cutoff ≤ e.before.clock + skew - retention
  | .upload _ _ => e.before.clock ≤ e.before.bucketClock / 1000 + skew
  | _ => True

def digest (bytes : Bytes) : String := Base64url.encode (Sha.sha256 bytes)

/-- A collector has taken the object. -/
def Doomed (key : String) (l : List (Entry ι Db Tx)) : Prop := ∃ m ∈ l, ∃ now, m.tx = .mark now ∧ key ∈ due now m.before

def Uploaded (key : String) (bytes : Bytes) (l : List (Entry ι Db Tx)) : Prop := ∃ e ∈ l, e.tx = .upload key bytes

/-- The object has become a candidate at `t` or later. -/
def Since (t : Nat) (key : String) (d : Db) (l : List (Entry ι Db Tx)) : Prop :=
  t ≤ d.clock ∧ ∀ e ∈ l, e.tx = .register key → t ≤ e.before.clock

/-- The receipt stems from a batch. -/
def Receipted (m : MutationRow) (l : List (Entry ι Db Tx)) : Prop := ∃ e ∈ l, ∃ c, effect e = some c ∧ m = c.receipt e.before.clock

end

/-! ## Requests -/

/-- The key of an object that a call may bring. -/
def Call.key : Call → Option String
  | put _ _ _ key => some key
  | _ => none

def Call.Asks (call : Call) (request : Request) (collection record : String) (deleted : Bool) : Prop :=
  (∃ key, call = .put request collection record key ∧ deleted = false) ∨ (call = .delete request collection record ∧ deleted = true)

/-- What the request has itself. -/
structure Admitted.By (a : Admitted) (request : Request) (collection record : String) (deleted : Bool) : Prop where
  named : identifier collection = true ∧ identifier record = true
  expected : request.expectedRevision = some a.expected
  operation : request.operationId = some a.operation
  body : request.body = some a.body
  want : wanted collection deleted a.expected a.body = .ok a.want

/-- A batch that a call makes. -/
def Made (call : Call) (c : Commit) : Prop :=
  ∃ request collection record deleted a root key, call.Asks request collection record deleted ∧
    Admitted.By a request collection record deleted ∧ c = a.commit collection record deleted root key

/-! ## The discipline -/

section
variable {ι : Type} (calls : ι → Call)

/-- What a caller may send. -/
def Sends (i : ι) : Tx → Db → List (Entry ι Db Tx) → Prop
  | .register key, _, _ => (calls i).key = some key
  | .upload key _, _, l => (calls i).key = some key ∧ ∃ e ∈ l, e.tx = .register key
  | .commit c, d, l => Made (calls i) c ∧ ∀ key ∈ c.objectKey, Since c.observedAt key d l ∧
      ∃ bytes, Uploaded key bytes l ∧ c.ciphertextSha256 = some (digest bytes)
  | .discover rows, _, l => ∀ row ∈ rows, ∃ e ∈ l, (∃ bytes, e.tx = .upload row.1 bytes) ∧ row.2 = e.before.bucketClock / 1000 + grace
  | .delete keys, _, l => ∃ e ∈ l, ∃ now, e.tx = .mark now ∧ keys = due now e.before
  | _, _, _ => True

/-- What holds of the objects, whatever the clocks. -/
structure Objects (d : Db) (l : List (Entry ι Db Tx)) : Prop where
  registered : ∀ e ∈ l, ∀ key, e.tx = .register key → (calls e.caller).key = some key
  uploaded : ∀ u ∈ l, ∀ key bytes, u.tx = .upload key bytes → ∃ e ∈ l, e.tx = .register key ∧ e.before.clock ≤ u.before.clock
  bucket : ∀ o ∈ d.bucket, ∃ e ∈ l, e.tx = .upload o.key o.bytes ∧ o.uploaded = e.before.bucketClock
  stays : ∀ key bytes, Uploaded key bytes l → Doomed key l ∨ ∃ o ∈ d.bucket, o.key = key ∧ o.bytes = bytes
  held : ∀ h ∈ d.heads, ∀ key, h.objectKey = some key → ∃ bytes, Uploaded key bytes l ∧ h.ciphertextSha256 = some (digest bytes)

/-- What holds of the objects where the clocks agree. -/
structure Spared (d : Db) (l : List (Entry ι Db Tx)) : Prop where
  candidates : ∀ x ∈ d.candidates, ∃ e ∈ l, e.tx = .register x.objectKey ∧ e.before.clock + grace ≤ x.eligibleAt + skew
  late : ∀ key, Doomed key l → ∃ e ∈ l, e.tx = .register key ∧ e.before.clock + grace ≤ d.clock + 2 * skew
  free : ∀ key, Doomed key l → ∀ h ∈ d.heads, h.objectKey ≠ some key

/-- What holds of the receipts where the clocks agree. -/
structure Retained (d : Db) (l : List (Entry ι Db Tx)) : Prop where
  receipt : ∀ e ∈ l, ∀ c, effect e = some c → c.receipt e.before.clock ∈ d.mutations ∨ e.before.clock + retention < d.clock + skew
  once : l.Pairwise fun e f => ∀ b c, effect e = some b → effect f = some c → (b.accountId, b.operation) = (c.accountId, c.operation) →
    e.before.clock + retention < f.before.clock + skew

structure Store (d : Db) (l : List (Entry ι Db Tx)) : Prop where
  recorded : Recorded d l
  clocks : ∀ e ∈ l, e.before.clock ≤ d.clock
  made : ∀ e ∈ l, ∀ c, e.tx = .commit c → Made (calls e.caller) c
  receipts : ∀ m ∈ d.mutations, Receipted m l
  objects : Objects calls d l
  retained : (∀ e ∈ l, Timely e) → Retained d l
  spared : (∀ e ∈ l, Timely e) → Spared d l

def discipline : Discipline ι Db Tx := ⟨Store calls, Sends calls, fun _ _ _ _ => False⟩

variable {calls} {i : ι} {tx : Tx} {d d' : Db} {l : List (Entry ι Db Tx)}

/-! ### Receipts -/

theorem Receipted.snoc {m : MutationRow} (h : Receipted m l) (e : Entry ι Db Tx) : Receipted m (l ++ [e]) := by
  obtain ⟨x, hx, c, hc⟩ := h
  exact ⟨x, List.mem_append_left _ hx, c, hc⟩

theorem receipts_run (h : Store calls d l) (hr : Tx.run tx d = some d') : ∀ m ∈ d'.mutations, Receipted m (l ++ [⟨i, tx, d⟩]) := by
  intro m hm
  rcases mem_mutations h.recorded.keyed hr hm with hm | ⟨c, rfl, ha, rfl⟩
  · exact (h.receipts m hm).snoc _
  · exact ⟨_, List.mem_append_right _ (List.mem_singleton_self _), c, effect_eq_some.mpr ⟨rfl, ha⟩, rfl⟩

/-- An operation is committed again only when its receipt is old. -/
theorem retained_run (h : Store calls d l) (hr : Tx.run tx d = some d') (ht : ∀ e ∈ l ++ [⟨i, tx, d⟩], Timely e) :
    Retained d' (l ++ [⟨i, tx, d⟩]) := by
  have hkeyed := h.recorded.keyed
  have hd := h.retained fun e he => ht e (List.mem_append_left _ he)
  have hclock := (clock_run hkeyed hr).1
  constructor
  · intro e he c hc
    rw [hclock]
    rcases mem_snoc.mp he with he | rfl
    · rcases hd.receipt e he c hc with hm | hold
      · rcases mutations_kept hkeyed hr hm with hm | ⟨cutoff, chosen, rfl, hlt⟩ | hlt
        · exact .inl hm
        · have hcut : cutoff ≤ d.clock + skew - retention := ht _ (List.mem_append_right _ (List.mem_singleton_self _))
          have hcreated : (c.receipt e.before.clock).createdAt = e.before.clock := rfl
          exact .inr (by omega)
        · have hcreated : (c.receipt e.before.clock).createdAt = e.before.clock := rfl
          exact .inr (by omega)
      · exact .inr hold
    · obtain ⟨htx, ha⟩ := effect_eq_some.mp hc
      subst htx
      exact .inl (commit_receipt hkeyed hr ha)
  · refine List.pairwise_append.mpr ⟨hd.once, List.pairwise_singleton _ _, ?_⟩
    intro e he f hf b c hb hc hsame
    rw [List.mem_singleton.mp hf] at hc ⊢
    obtain ⟨-, ha⟩ := effect_eq_some.mp hc
    obtain ⟨-, -, -, -, hfresh, -⟩ := ha
    rcases hd.receipt e he b hb with hm | hold
    · exact absurd ⟨_, hm, hsame⟩ hfresh
    · exact hold

/-! ### Objects -/

theorem Uploaded.snoc {key : String} {bytes : Bytes} (h : Uploaded key bytes l) (e : Entry ι Db Tx) : Uploaded key bytes (l ++ [e]) := by
  obtain ⟨x, hx, he⟩ := h
  exact ⟨x, List.mem_append_left _ hx, he⟩

theorem Doomed.snoc {key : String} (h : Doomed key l) (e : Entry ι Db Tx) : Doomed key (l ++ [e]) := by
  obtain ⟨m, hm, he⟩ := h
  exact ⟨m, List.mem_append_left _ hm, he⟩

theorem uploaded_snoc {key : String} {bytes : Bytes} {e : Entry ι Db Tx} (h : Uploaded key bytes (l ++ [e])) :
    Uploaded key bytes l ∨ e.tx = .upload key bytes := by
  obtain ⟨x, hx, he⟩ := h
  rcases mem_snoc.mp hx with hx | rfl
  · exact .inl ⟨x, hx, he⟩
  · exact .inr he

theorem doomed_snoc {key : String} {e : Entry ι Db Tx} (h : Doomed key (l ++ [e])) :
    Doomed key l ∨ ∃ now, e.tx = .mark now ∧ key ∈ due now e.before := by
  obtain ⟨m, hm, now, he, hk⟩ := h
  rcases mem_snoc.mp hm with hm | rfl
  · exact .inl ⟨m, hm, now, he, hk⟩
  · exact .inr ⟨now, he, hk⟩

theorem objects_run (h : Store calls d l) (hs : Sends calls i tx d l) (hr : Tx.run tx d = some d') :
    Objects calls d' (l ++ [⟨i, tx, d⟩]) := by
  have hkeyed := h.recorded.keyed
  have ho := h.objects
  constructor
  · intro e he key hk
    rcases mem_snoc.mp he with he | rfl
    · exact ho.registered e he key hk
    · subst hk
      exact hs
  · intro u hu key bytes hk
    rcases mem_snoc.mp hu with hu | rfl
    · obtain ⟨e, he, hreg, hle⟩ := ho.uploaded u hu key bytes hk
      exact ⟨e, List.mem_append_left _ he, hreg, hle⟩
    · subst hk
      obtain ⟨-, e, he, hreg⟩ := hs
      exact ⟨e, List.mem_append_left _ he, hreg, h.clocks e he⟩
  · intro o hmem
    rcases mem_bucket hkeyed hr hmem with hmem | ⟨htx, hup⟩
    · obtain ⟨e, he, hup⟩ := ho.bucket o hmem
      exact ⟨e, List.mem_append_left _ he, hup⟩
    · exact ⟨_, List.mem_append_right _ (List.mem_singleton_self _), htx, hup⟩
  · intro key bytes hup
    rcases uploaded_snoc hup with hup | htx
    · rcases ho.stays key bytes hup with hdoom | ⟨o, hmem, hkey, hbytes⟩
      · exact .inl (hdoom.snoc _)
      · rcases bucket_kept hkeyed hr hmem with hmem | ⟨keys, htx, hdel⟩
        · exact .inr ⟨o, hmem, hkey, hbytes⟩
        · -- A deletion takes only what a collector has marked.
          subst htx
          obtain ⟨e, he, now, hmark, rfl⟩ := hs
          exact .inl ⟨e, List.mem_append_left _ he, now, hmark, hkey ▸ hdel⟩
    · obtain rfl : tx = .upload key bytes := htx
      exact .inr (upload_bucket hr)
  · intro x hx key hk
    rcases mem_heads hkeyed hr hx with hx | ⟨c, rfl, -, rfl⟩
    · obtain ⟨bytes, hup, hdig⟩ := ho.held x hx key hk
      exact ⟨bytes, hup.snoc _, hdig⟩
    · obtain ⟨-, bytes, hup, hdig⟩ := hs.2 key hk
      exact ⟨bytes, hup.snoc _, hdig⟩

/-- An object that is committed is under no collector: five minutes are less than a day, also with the skew of the clocks. -/
theorem not_doomed (hd : Spared d l) {c : Commit} (ha : c.allowed d) {key : String} (hsince : Since c.observedAt key d l) : ¬Doomed key l := by
  intro hdoom
  obtain ⟨e, he, hreg, hlate⟩ := hd.late key hdoom
  have hle := hsince.2 e he hreg
  obtain ⟨-, -, -, ⟨-, hwindow⟩, -⟩ := ha
  have hgrace : grace = 86400 := rfl
  have hskew : skew = 43000 := rfl
  omega

theorem spared_run (h : Store calls d l) (hs : Sends calls i tx d l) (hr : Tx.run tx d = some d')
    (ht : ∀ e ∈ l ++ [⟨i, tx, d⟩], Timely e) : Spared d' (l ++ [⟨i, tx, d⟩]) := by
  have hkeyed := h.recorded.keyed
  have hd := h.spared fun e he => ht e (List.mem_append_left _ he)
  have hnow := ht _ (List.mem_append_right _ (List.mem_singleton_self _))
  have hclock := (clock_run hkeyed hr).1
  have lift : ∀ {key : String} {n : Nat}, (∃ e ∈ l, e.tx = .register key ∧ e.before.clock + grace ≤ n) →
      ∃ e ∈ l ++ [(⟨i, tx, d⟩ : Entry ι Db Tx)], e.tx = .register key ∧ e.before.clock + grace ≤ n := by
    rintro key n ⟨e, he, hreg⟩
    exact ⟨e, List.mem_append_left _ he, hreg⟩
  constructor
  · intro x hx
    rcases mem_candidates hkeyed hr hx with ⟨y, hy, hk, he⟩ | ⟨htx, he⟩ | ⟨rows, htx, hrow⟩ | ⟨y, hy, hk, he⟩
    · have := hd.candidates y hy
      rw [hk, he] at this
      exact lift this
    · exact ⟨_, List.mem_append_right _ (List.mem_singleton_self _), htx, by dsimp only; omega⟩
    · subst htx
      obtain ⟨u, hu, ⟨bytes, hup⟩, htime⟩ := hs _ hrow
      obtain ⟨e, he, hreg, hle⟩ := h.objects.uploaded u hu _ bytes hup
      have hut := ht u (List.mem_append_left _ hu)
      unfold Timely at hut
      rw [hup] at hut
      dsimp only at hut htime
      exact lift ⟨e, he, hreg, by omega⟩
    · obtain ⟨bytes, ⟨u, hu, hup⟩, -⟩ := h.objects.held y hy _ hk
      obtain ⟨e, he, hreg, hle⟩ := h.objects.uploaded u hu _ bytes hup
      have := h.clocks u hu
      exact lift ⟨e, he, hreg, by omega⟩
  · intro key hdoom
    rw [hclock]
    rcases doomed_snoc hdoom with hdoom | ⟨now, htx, hdue⟩
    · exact lift (hd.late key hdoom)
    · obtain rfl : tx = .mark now := htx
      obtain ⟨⟨x, hx, rfl, hle⟩, -⟩ := mem_due hdue
      obtain ⟨e, he, hreg, hgrace⟩ := hd.candidates x hx
      have hmark : now ≤ d.clock + skew := hnow
      exact lift ⟨e, he, hreg, by omega⟩
  · intro key hdoom x hx hk
    rcases mem_heads hkeyed hr hx with hx | ⟨c, rfl, ha, rfl⟩
    · rcases doomed_snoc hdoom with hdoom | ⟨now, -, hdue⟩
      · exact hd.free key hdoom x hx hk
      · exact not_held hkeyed (mem_due hdue).2 x hx hk
    · rcases doomed_snoc hdoom with hdoom | ⟨now, htx, -⟩
      · exact not_doomed hd ha (hs.2 key hk).1 hdoom
      · cases htx

/-! ### Every step -/

theorem Since.run (hd : Keyed d) (hr : Tx.run tx d = some d') {t : Nat} {key : String} (h : Since t key d l) :
    Since t key d' (l ++ [⟨i, tx, d⟩]) := by
  refine ⟨by rw [(clock_run hd hr).1]; exact h.1, fun e he hreg => ?_⟩
  rcases mem_snoc.mp he with he | rfl
  · exact h.2 e he hreg
  · exact h.1

/-- What may be sent may still be applied later. -/
theorem Sends.run (hd : Keyed d) (hr : Tx.run tx d = some d') {j : ι} {other : Tx} (h : Sends calls j other d l) :
    Sends calls j other d' (l ++ [⟨i, tx, d⟩]) := by
  cases other with
  | register key => exact h
  | upload key bytes =>
    obtain ⟨hk, e, he, hreg⟩ := h
    exact ⟨hk, e, List.mem_append_left _ he, hreg⟩
  | commit c =>
    refine ⟨h.1, fun key hk => ?_⟩
    obtain ⟨hsince, bytes, hup, hdig⟩ := h.2 key hk
    exact ⟨hsince.run hd hr, bytes, hup.snoc _, hdig⟩
  | discover rows =>
    intro row hrow
    obtain ⟨e, he, hup⟩ := h row hrow
    exact ⟨e, List.mem_append_left _ he, hup⟩
  | delete keys =>
    obtain ⟨e, he, hmark⟩ := h
    exact ⟨e, List.mem_append_left _ he, hmark⟩
  | mark now | remove keys | expire cutoff chosen | lapse chosen => trivial

theorem Sends.drift (hr : system.drift d d') {j : ι} {tx : Tx} (h : Sends calls j tx d l) : Sends calls j tx d' l := by
  cases tx with
  | commit c =>
    refine ⟨h.1, fun key hk => ?_⟩
    obtain ⟨hsince, hup⟩ := h.2 key hk
    exact ⟨⟨Nat.le_trans hsince.1 hr.2.2.2.2.1, hsince.2⟩, hup⟩
  | register key | upload key bytes | discover rows | mark now | delete keys | remove keys | expire cutoff chosen | lapse chosen => exact h

theorem Keyed.drift (hr : system.drift d d') (h : Keyed d) : Keyed d' := by
  obtain ⟨hh, hm, -, hb, -⟩ := hr
  exact ⟨hh ▸ h.heads, hh ▸ h.checked, hm ▸ h.mutations, hb ▸ h.bucket⟩

theorem Store.run (h : Store calls d l) (hs : Sends calls i tx d l) (hr : Tx.run tx d = some d') :
    Store calls d' (l ++ [⟨i, tx, d⟩]) where
  recorded := h.recorded.run hr
  clocks := by
    rw [(clock_run h.recorded.keyed hr).1]
    exact forall_mem_snoc h.clocks (Nat.le_refl _)
  made := by
    intro e he c hc
    rcases mem_snoc.mp he with he | rfl
    · exact h.made e he c hc
    · subst hc
      exact hs.1
  receipts := receipts_run h hr
  objects := objects_run h hs hr
  retained := retained_run h hr
  spared := spared_run h hs hr

theorem Store.drift (h : Store calls d l) (hr : system.drift d d') : Store calls d' l := by
  have hkeyed := h.recorded.keyed.drift hr
  obtain ⟨hh, hm, hcand, hb, hclock, -⟩ := hr
  refine ⟨⟨hkeyed, hh ▸ h.recorded.head, h.recorded.counted⟩, fun e he => Nat.le_trans (h.clocks e he) hclock, h.made,
    hm ▸ h.receipts, ?_, fun ht => ?_, fun ht => ?_⟩
  · have ho := h.objects
    exact ⟨ho.registered, ho.uploaded, hb ▸ ho.bucket, hb ▸ ho.stays, hh ▸ ho.held⟩
  · have hd := h.retained ht
    refine ⟨fun e he c hc => ?_, hd.once⟩
    rcases hd.receipt e he c hc with hr | hr
    · exact .inl (hm ▸ hr)
    · exact .inr (by omega)
  · have hd := h.spared ht
    refine ⟨hcand ▸ hd.candidates, fun key hk => ?_, hh ▸ hd.free⟩
    obtain ⟨e, he, hreg, hle⟩ := hd.late key hk
    exact ⟨e, he, hreg, by omega⟩

theorem store_keeps : Keeps system (discipline calls) where
  inv := ⟨fun _ _ _ _ _ h hs hr _ => h.run (hs.resolve_right id) hr, fun _ _ _ h hr _ => h.drift hr⟩
  sent _ _ := ⟨fun _ _ _ _ _ h _ hr hj => hj.run h.recorded.keyed hr, fun _ _ _ _ hr hj => hj.drift hr⟩

theorem kept_since (t : Nat) (key : String) : Kept system (discipline calls) (Since t key) :=
  ⟨fun _ _ _ _ _ h _ hr hk => hk.run h.recorded.keyed hr, fun _ _ _ _ hr hk => ⟨Nat.le_trans hk.1 hr.2.2.2.2.1, hk.2⟩⟩

theorem kept_uploaded (key : String) (bytes : Bytes) : Kept system (discipline calls) fun _ l => Uploaded key bytes l :=
  ⟨fun _ _ _ _ _ _ _ _ h => h.snoc _, fun _ _ _ _ _ h => h⟩

theorem kept_receipted (t : List MutationRow) : Kept system (discipline calls) fun _ l => ∀ m ∈ t, Receipted m l :=
  ⟨fun _ _ _ _ _ _ _ _ h m hm => (h m hm).snoc _, fun _ _ _ _ _ h => h⟩

theorem kept_after (t : Nat) : Kept system (discipline calls) fun d _ => t ≤ d.clock :=
  ⟨fun _ _ _ _ _ h _ hr hk => by rw [(clock_run h.recorded.keyed hr).1]; exact hk, fun _ _ _ _ hr hk => Nat.le_trans hk hr.2.2.2.2.1⟩

end

/-! ## The programs -/

theorem wanted_deleted {collection body : String} {expected : Int} {want : Wanted} (h : wanted collection true expected body = .ok want) :
    want.content = none := by
  unfold wanted at h
  obtain ⟨w, hw, h⟩ := Checks.bind_eq_ok.mp h
  rw [Checks.check_bind_eq_ok, Checks.pure_eq_ok] at h
  obtain ⟨value, -, hv⟩ := Checks.bind_eq_ok.mp ((if_pos rfl).symm.trans hw)
  cases hv
  rw [← h.2]

/-- The answer of a batch of the operation. -/
def Answered {ι : Type} (a : Admitted) (hash : String) (o : Outcome) (l : List (Entry ι Db Tx)) : Prop :=
  ∃ e ∈ l, ∃ c, effect e = some c ∧ c.accountId = a.owner.accountId ∧ c.operation = a.operation ∧ c.hash = hash ∧
    o = (c.revision, c.deleted)

section
variable {ι : Type} {calls : ι → Call} {i : ι}

theorem kept_answered (a : Admitted) (hash : String) (o : Outcome) :
    Kept system (discipline calls) fun _ l => Answered a hash o l :=
  ⟨fun _ _ _ _ _ _ _ _ ⟨e, he, h⟩ => ⟨e, List.mem_append_left _ he, h⟩, fun _ _ _ _ _ h => h⟩

theorem gives_commit {tx : Tx} {F : Shared ι Db Tx → Prop}
    (hs : ∀ s, (contract system (discipline calls)).inv s → F s → Sends calls i tx s.db s.log) :
    Ensures (world system) (contract system (discipline calls)) i F (commit tx : Route Unit) fun _ s => Applied i tx s.log :=
  spec_commit store_keeps hs

theorem gives_receipts : Ensures (world system) (contract system (discipline calls)) i (fun _ => True) (read : Route Db)
    fun d s => ∀ m ∈ d.mutations, Receipted m s.log :=
  (spec_read (.const True) (fun d => kept_receipted d.mutations) fun _ _ h => h.receipts).post fun _ _ _ h => h.2

theorem mutation_mem {d : Db} {account operation : String} {m : MutationRow} (h : mutation d account operation = some m) :
    m ∈ d.mutations ∧ m.accountId = account ∧ m.operationId = operation := by
  obtain ⟨hm, hk⟩ := lookup_mem h
  exact ⟨List.mem_of_mem_filter hm, (Prod.mk.inj hk).1, (Prod.mk.inj hk).2⟩

theorem gives_outcome {a : Admitted} {hash : String} {d : Db} {m : MutationRow}
    (hm : mutation d a.owner.accountId a.operation = some m) :
    Ensures (world system) (contract system (discipline calls)) i (fun s => ∀ m ∈ d.mutations, Receipted m s.log) (outcome m hash)
      fun o s => Answered a hash o s.log := by
  obtain ⟨hmem, hacc, hop⟩ := mutation_mem hm
  unfold outcome
  refine Ensures.fails.bind fun _ => .pure fun s _ hs => ?_
  obtain ⟨e, he, c, hc, rfl⟩ := hs.1 m hmem
  exact ⟨e, he, c, hc, hacc, hop, not_not.mp hs.2, rfl⟩

theorem gives_reconcile (a : Admitted) (root : Root) (hash : String) :
    Ensures (world system) (contract system (discipline calls)) i (fun _ => True) (reconcile a root hash)
      fun r s => ∀ o, r = some o → Answered a hash o s.log := by
  unfold reconcile
  refine gives_receipts.bind fun d => ?_
  cases hm : mutation d a.owner.accountId a.operation with
  | none => exact .pure fun _ _ _ o ho => by cases ho
  | some previous =>
    refine Ensures.carry (kept_receipted d.mutations).lasting spec_any fun _ _ => ?_
    refine Ensures.carry (kept_receipted d.mutations).lasting (gives_fails _ _) fun _ _ => ?_
    refine (gives_outcome hm).bind fun out => .pure fun s _ h o ho => ?_
    cases ho
    exact h

theorem gives_reconciled (a : Admitted) (root : Root) (hash : String) (refusal : Failure) :
    Ensures (world system) (contract system (discipline calls)) i (fun _ => True) (reconciled a root hash refusal)
      fun o s => Answered a hash o s.log := by
  unfold reconciled
  refine (gives_reconcile a root hash).bind fun r => ?_
  cases r with
  | none => exact .throw
  | some out => exact .pure fun s _ h => h out rfl

theorem gives_checked (collection record : String) (deleted : Bool) (a : Admitted) (root : Root) (hash : String) :
    Ensures (world system) (contract system (discipline calls)) i (fun _ => True) (checked collection record deleted a root hash)
      fun r s => ∀ o, r = some o → Answered a hash o s.log := by
  have hrefused : ∀ refusal, Ensures (world system) (contract system (discipline calls)) i (fun _ => True)
      (reconciled a root hash refusal >>= fun o => pure (some o)) fun r s => ∀ o, r = some o → Answered a hash o s.log := by
    intro refusal
    refine (gives_reconciled a root hash refusal).bind fun out => .pure fun s _ h o ho => ?_
    cases ho
    exact h
  unfold checked
  refine (gives_fails _ _).andThen fun _ _ => spec_any.andThen fun d _ => ?_
  cases conflict a deleted root (lookup HeadRow.slot (a.slot collection record root) d.heads) with
  | some refusal => exact hrefused refusal
  | none =>
    refine spec_any.andThen fun d _ => ?_
    cases exceeded a d with
    | some refusal => exact hrefused refusal
    | none => exact .pure fun _ _ _ o ho => by cases ho

theorem gives_decided {α : Type} (x : Except Failure α) :
    Ensures (world system) (contract system (discipline calls)) i (fun _ => True) (decided x) fun a _ => x = .ok a := by
  cases x with
  | error e => exact .throw
  | ok a => exact gives_pure rfl

theorem gives_admission (request : Request) (collection record : String) (deleted : Bool) :
    Ensures (world system) (contract system (discipline calls)) i (fun _ => True) (admission request collection record deleted)
      fun a _ => a.By request collection record deleted := by
  unfold admission
  refine (gives_fails _ _).andThen fun _ _ => (gives_fails _ _).andThen fun _ hnamed => (gives_fails _ _).andThen fun _ _ => ?_
  refine (gives_demand _ _).andThen fun expected hexpected => (gives_fails _ _).andThen fun _ _ => ?_
  refine (gives_demand _ _).andThen fun operation hoperation => ?_
  refine (@gives_owner _ _ _ _ _ _ Base64.url _ _ _).andThen fun actor _ => (gives_demand _ _).andThen fun actor _ => ?_
  refine (gives_fails _ _).andThen fun _ _ => (gives_demand _ _).andThen fun body hbody => (gives_decided _).andThen fun want hwant => ?_
  refine gives_pure ⟨?_, hexpected, (Option.filter_eq_some_iff.mp hoperation).1, (Option.filter_eq_some_iff.mp hbody).1, hwant⟩
  simpa [not_or] using hnamed

/-! ### What comes before the upload only reads -/

theorem reads_owner (request : Request) (n : Nat) :
    Prog.Only (· = .read) (@owner Db Tx Base64.url Db.around request n : Route (Option Owner)).run := by
  unfold owner
  cases request.cookie with
  | none => exact .ret _
  | some cookie => exact (only_demand _ _).andThen fun now => only_read fun d => .ret _

theorem reads_decided {α : Type} (x : Except Failure α) : Prog.Only (· = .read) (decided x : Route α).run := by
  cases x with
  | error e => exact .ret _
  | ok a => exact .ret _

theorem reads_outcome (m : MutationRow) (hash : String) : Prog.Only (· = .read) (outcome m hash).run :=
  (Only.fails _ _).andThen fun _ => .ret _

theorem reads_reconcile (a : Admitted) (root : Root) (hash : String) : Prog.Only (· = .read) (reconcile a root hash).run := by
  refine only_read fun d => ?_
  cases mutation d a.owner.accountId a.operation with
  | none => exact .ret _
  | some previous => exact only_read fun d => (Only.fails _ _).andThen fun _ => (reads_outcome _ _).andThen fun _ => .ret _

theorem reads_reconciled (a : Admitted) (root : Root) (hash : String) (refusal : Failure) :
    Prog.Only (· = .read) (reconciled a root hash refusal >>= fun o => pure (some o) : Route (Option Outcome)).run :=
  Only.andThen ((reads_reconcile a root hash).andThen fun _ => only_demand _ _) fun _ => .ret _

theorem reads_checked (collection record : String) (deleted : Bool) (a : Admitted) (root : Root) (hash : String) :
    Prog.Only (· = .read) (checked collection record deleted a root hash).run := by
  refine (Only.fails _ _).andThen fun _ => only_read fun d => ?_
  cases conflict a deleted root (lookup HeadRow.slot (a.slot collection record root) d.heads) with
  | some refusal => exact reads_reconciled a root hash refusal
  | none =>
    refine only_read fun d => ?_
    cases exceeded a d with
    | some refusal => exact reads_reconciled a root hash refusal
    | none => exact .ret _

theorem reads_admission (request : Request) (collection record : String) (deleted : Bool) :
    Prog.Only (· = .read) (admission request collection record deleted).run := by
  refine (Only.fails _ _).andThen fun _ => (Only.fails _ _).andThen fun _ => (Only.fails _ _).andThen fun _ => ?_
  refine (only_demand _ _).andThen fun expected => (Only.fails _ _).andThen fun _ => (only_demand _ _).andThen fun operation => ?_
  refine (reads_owner _ _).andThen fun found => (only_demand _ _).andThen fun actor => (Only.fails _ _).andThen fun _ => ?_
  exact (only_demand _ _).andThen fun body => (reads_decided _).andThen fun want => .ret _

theorem reads_prepare (request : Request) (collection record : String) (deleted : Bool) :
    Prog.Only (· = .read) (prepare request collection record deleted).run := by
  refine (reads_admission request collection record deleted).andThen fun a => only_read fun d => ?_
  refine (only_demand _ _).andThen fun root => (Only.fails _ _).andThen fun _ => (reads_reconcile _ _ _).andThen fun r => ?_
  cases r with
  | some o => exact .ret _
  | none => exact (reads_checked _ _ _ _ _ _).andThen fun _ => .ret _

/-! ### Writes -/

theorem authority_observed {d : Db} {o : Owner} {root : Root} (h : authority d o = some root) : root.observedAt = d.clock := by
  unfold authority at h
  split at h
  · obtain ⟨x, -, rfl⟩ := Option.map_eq_some_iff.mp h
    rfl
  · cases h

/-- What the part before the upload comes to. -/
def Prepared (request : Request) (collection record : String) (deleted : Bool) (r : Admitted × Root × Option Outcome)
    (s : Shared ι Db Tx) : Prop :=
  r.1.By request collection record deleted ∧ r.2.1.observedAt ≤ s.db.clock ∧
    ∀ o, r.2.2 = some o → Answered r.1 (r.1.hash collection record deleted) o s.log

theorem gives_prepare (request : Request) (collection record : String) (deleted : Bool) :
    Ensures (world system) (contract system (discipline calls)) i (fun _ => True) (prepare request collection record deleted)
      (Prepared request collection record deleted) := by
  unfold prepare
  refine (gives_admission request collection record deleted).andThen fun a ha => ?_
  have hclock : Ensures (world system) (contract system (discipline calls)) i (fun _ => True) (read : Route Db)
      fun d s => d.clock ≤ s.db.clock :=
    (spec_read (.const True) (fun d => kept_after d.clock) fun _ _ _ => Nat.le_refl _).post fun _ _ _ h => h.2
  refine hclock.bind fun d => ?_
  refine Ensures.carry (kept_after d.clock).lasting (gives_demand _ _) fun root hroot => ?_
  have hobserved := authority_observed hroot
  refine Ensures.carry (kept_after d.clock).lasting (gives_fails _ _) fun _ _ => ?_
  refine (((gives_reconcile a root _).frame (kept_after d.clock).lasting).weaken fun _ _ h => ⟨trivial, h⟩).bind fun r => ?_
  cases r with
  | some out =>
    refine .pure fun s _ h => ⟨ha, hobserved ▸ h.2, fun o ho => ?_⟩
    cases ho
    exact h.1 _ rfl
  | none =>
    refine (((gives_checked collection record deleted a root _).frame (kept_after d.clock).lasting).weaken fun _ _ h => ⟨trivial, h.2⟩).bind
      fun r => .pure fun s _ h => ⟨ha, hobserved ▸ h.2, h.1⟩

/-- No caller has the key of another one. -/
def Distinct (calls : ι → Call) : Prop := ∀ i j key, (calls i).key = some key → (calls j).key = some key → i = j

/-- Before a caller has sent anything, its key is no candidate. -/
theorem since_of_fresh (hdistinct : Distinct calls) {s : Shared ι Db Tx} (hinv : (contract system (discipline calls)).inv s)
    (hfresh : (contract system (discipline calls)).fresh i s) {t : Nat} (ht : t ≤ s.db.clock) {key : String}
    (hkey : (calls i).key = some key) : Since t key s.db s.log := by
  refine ⟨ht, fun e he hreg => ?_⟩
  have howner := hinv.1.objects.registered e he key hreg
  exact absurd (hdistinct e.caller i key howner hkey) (hfresh.1 e he)

theorem gives_store {content : Option (Bytes × String)} {key : String} (hkey : content.isSome = true → (calls i).key = some key) (t : Nat) :
    Ensures (world system) (contract system (discipline calls)) i (fun s => content.isSome = true → Since t key s.db s.log)
      (store content key) fun _ s => ∀ x ∈ content, Since t key s.db s.log ∧ Uploaded key x.1 s.log := by
  cases content with
  | none => exact .pure fun _ _ _ x hx => by cases hx
  | some content =>
    obtain ⟨bytes, envelope⟩ := content
    have hkey := hkey rfl
    have hregister : Ensures (world system) (contract system (discipline calls)) i (fun s => True ∧ Since t key s.db s.log)
        (commit (.register key) : Route Unit) fun _ s => Applied i (.register key) s.log ∧ Since t key s.db s.log :=
      (gives_commit fun s _ _ => show Sends calls i (.register key) s.db s.log from hkey).frame (kept_since t key).lasting
    have hsends : ∀ s : Shared ι Db Tx, Applied i (.register key) s.log → Sends calls i (.upload key bytes) s.db s.log := by
      intro s h
      obtain ⟨d, hd⟩ := h
      exact ⟨hkey, _, hd, rfl⟩
    have hput : Ensures (world system) (contract system (discipline calls)) i (fun s => Applied i (.register key) s.log)
        (commit (.upload key bytes) : Route Unit) fun _ s => Applied i (.upload key bytes) s.log := gives_commit fun s _ h => hsends s h
    have hupload : Ensures (world system) (contract system (discipline calls)) i
        (fun s => Applied i (.register key) s.log ∧ Since t key s.db s.log) (attempt (commit (.upload key bytes) : Route Unit))
        fun r s => (∀ u, r = .ok u → Uploaded key bytes s.log) ∧ Since t key s.db s.log := by
      refine ((Ensures.attempt hput).frame (kept_since t key).lasting).post fun r s _ h => ⟨fun u hu => ?_, h.2⟩
      obtain ⟨d, hd⟩ := h.1 u hu
      exact ⟨_, hd, rfl⟩
    refine (hregister.weaken fun s _ h => ⟨trivial, h rfl⟩).bind fun _ => hupload.bind fun r => ?_
    cases r with
    | error e => exact .throw
    | ok u =>
      refine .pure fun s _ h x hx => ?_
      cases hx
      exact ⟨h.2, h.1 u rfl⟩

theorem gives_finish {a : Admitted} {root : Root} {c : Commit} :
    Ensures (world system) (contract system (discipline calls)) i (fun s => Sends calls i (.commit c) s.db s.log) (finish a root c)
      fun o s => Answered a c.hash o s.log := by
  unfold finish
  refine (Ensures.attempt (gives_commit fun _ _ h => h)).bind fun result => ?_
  refine Ensures.weaken ?_ fun _ _ _ => trivial
  refine gives_receipts.bind fun d => ?_
  refine Ensures.carry (kept_receipted d.mutations).lasting spec_any fun _ _ => ?_
  refine Ensures.carry (kept_receipted d.mutations).lasting (gives_fails _ _) fun _ _ => ?_
  cases hm : mutation d a.owner.accountId a.operation with
  | some previous => exact gives_outcome hm
  | none =>
    cases result with
    | error e => exact .throw
    | ok u => exact .throw

/-- What a write knows when it has an answer. -/
def Acknowledged (request : Request) (collection record : String) (deleted : Bool) (o : Outcome) (l : List (Entry ι Db Tx)) : Prop :=
  ∃ a : Admitted, a.By request collection record deleted ∧ Answered a (a.hash collection record deleted) o l

theorem gives_write (hdistinct : Distinct calls) {request : Request} {collection record : String} {deleted : Bool} {key : String}
    (hasks : (calls i).Asks request collection record deleted) (hkey : deleted = false → (calls i).key = some key) :
    Ensures (world system) (contract system (discipline calls)) i ((contract system (discipline calls)).fresh i)
      (write request collection record deleted key) fun o s => Acknowledged request collection record deleted o s.log := by
  unfold write
  have hprepare := reading (@gives_prepare _ calls i request collection record deleted)
    (reads_prepare request collection record deleted) (fresh_stable i)
  refine (hprepare.weaken fun _ _ h => ⟨trivial, h⟩).bind fun r => ?_
  obtain ⟨a, root, answered⟩ := r
  cases answered with
  | some o => exact .pure fun s _ h => ⟨a, h.1.1, h.1.2.2 o rfl⟩
  | none =>
    by_cases ha : a.By request collection record deleted
    · have hcontent : a.want.content.isSome = true → (calls i).key = some key := by
        intro hsome
        refine hkey ?_
        cases deleted with
        | false => rfl
        | true =>
          rw [wanted_deleted ha.want] at hsome
          cases hsome
      refine ((gives_store hcontent root.observedAt).weaken fun s hs h hsome => ?_).bind fun _ => ?_
      · exact since_of_fresh hdistinct hs h.2 h.1.2.1 (hcontent hsome)
      refine (gives_finish.weaken fun s _ h => ⟨⟨request, collection, record, deleted, a, root, key, hasks, ha, rfl⟩, ?_⟩).post
        fun o s _ h => ⟨a, ha, h⟩
      intro key' hk
      obtain ⟨x, hx, rfl⟩ := Option.map_eq_some_iff.mp hk
      obtain ⟨hsince, hup⟩ := h x hx
      refine ⟨hsince, x.1, hup, ?_⟩
      exact congrArg (Option.map fun c : Bytes × String => digest c.1) hx
    · exact Valid.weaken (.never _) fun _ _ h => ha h.1.1

/-! ### Reads -/

/-- The head is what the last batch of its record had written at some time behind `l₀`. -/
def Written (l₀ : List (Entry ι Db Tx)) (h : HeadRow) (l : List (Entry ι Db Tx)) : Prop :=
  ∃ l₁, l₀ <+: l₁ ∧ l₁ <+: l ∧ (history h.slot l₁).getLast?.map Commit.row = some h

/-- What a reader that starts behind `l₀` knows of its answer. -/
structure Shown (l₀ : List (Entry ι Db Tx)) (collection record : String) (r : Selected) (l : List (Entry ι Db Tx)) : Prop where
  named : r.head.collectionId = collection ∧ r.head.recordId = record
  bytes : ∀ root head bytes, r = .live root head bytes → head.deleted = false ∧ head.ciphertextSha256 = some (digest bytes)
  deleted : ∀ head, r = .deleted head → head.deleted = true
  written : Written l₀ r.head l

variable {K : Discipline ι Db Tx} {l₀ : List (Entry ι Db Tx)}

theorem kept_written (d : Db) : Kept system K fun _ l => ∀ slot h, lookup HeadRow.slot slot d.heads = some h → Written l₀ h l := by
  refine ⟨fun i tx e e' l _ _ _ hk slot h hl => ?_, fun _ _ _ _ _ h => h⟩
  obtain ⟨l₁, hbehind, hpre, hlast⟩ := hk slot h hl
  exact ⟨l₁, hbehind, hpre.trans (List.prefix_append _ _), hlast⟩

theorem gives_heads (hK : ∀ d l, K.inv d l → Recorded d l ∧ l₀ <+: l) :
    Ensures (world system) (contract system K) i (fun _ => True) (read : Route Db)
      fun d s => ∀ slot h, lookup HeadRow.slot slot d.heads = some h → Written l₀ h s.log := by
  refine (spec_read (.const True) kept_written fun d l hinv slot h hl => ⟨l, (hK d l hinv).2, List.prefix_rfl, ?_⟩).post fun _ _ _ h => h.2
  rw [(lookup_mem hl).2, ← (hK d l hinv).1.head]
  exact hl

theorem gives_get (hK : ∀ d l, K.inv d l → Recorded d l ∧ l₀ <+: l) (request : Request) (collection record : String) :
    Ensures (world system) (contract system K) i (fun _ => True) (get request collection record)
      fun r s => Shown l₀ collection record r s.log := by
  unfold get
  refine (gives_fails _ _).andThen fun _ _ => (gives_fails _ _).andThen fun _ _ => ?_
  refine (@gives_owner _ _ _ _ _ _ Base64.url _ _ _).andThen fun actor _ => (gives_demand _ _).andThen fun actor _ => ?_
  refine spec_any.andThen fun d _ => (gives_demand _ _).andThen fun root _ => (gives_fails _ _).andThen fun _ _ => ?_
  refine (gives_heads hK).bind fun d => ?_
  cases hl : lookup HeadRow.slot (actor.accountId, root.vaultId, collection, record) d.heads with
  | none => exact Ensures.weaken (spec_any.andThen fun d _ => (gives_fails _ _).andThen fun _ _ => .throw) fun _ _ _ => trivial
  | some selected =>
    obtain ⟨-, -, hcollection, hrecord⟩ := Prod.ext_iff.mp (lookup_mem hl).2 |>.imp_right fun h =>
      Prod.ext_iff.mp h |>.imp_right Prod.ext_iff.mp
    refine Ensures.carry (kept_written d).lasting (gives_fails _ _) fun _ _ => ?_
    by_cases hdeleted : selected.deleted = true
    · rw [if_pos hdeleted]
      refine Ensures.carry (kept_written d).lasting spec_any fun _ _ => ?_
      refine Ensures.carry (kept_written d).lasting (gives_fails _ _) fun _ _ => .pure fun s _ h => ?_
      refine ⟨⟨hcollection, hrecord⟩, fun _ _ _ he => (by cases he), fun head he => ?_, h _ _ hl⟩
      cases he
      exact hdeleted
    · rw [if_neg hdeleted]
      refine Ensures.weaken ?_ fun _ _ _ => trivial
      refine (gives_demand _ _).andThen fun key _ => (gives_demand _ _).andThen fun sha hsha => (gives_demand _ _).andThen fun envelope _ => ?_
      refine (gives_fails _ _).andThen fun _ _ => spec_any.andThen fun d _ => (gives_demand _ _).andThen fun object _ => ?_
      refine (gives_fails _ _).andThen fun _ hobject => (gives_heads hK).bind fun e => ?_
      refine Ensures.carry (kept_written e).lasting (gives_fails _ _) fun _ hsame => ?_
      refine Ensures.carry (kept_written e).lasting spec_any fun _ _ => ?_
      refine Ensures.carry (kept_written e).lasting (gives_fails _ _) fun _ _ => .pure fun s _ h => ?_
      simp only [not_or, not_not] at hobject
      refine ⟨⟨hcollection, hrecord⟩, fun _ _ _ he => ?_, fun _ he => (by cases he), h _ _ (not_not.mp hsame)⟩
      cases he
      refine ⟨by simpa using hdeleted, ?_⟩
      rw [hsha, ← hobject.2.2.2]
      rfl

/-! ### The collector -/

theorem gives_batches (now : Nat) (timely : List Bool) :
    Ensures (world system) (contract system (discipline calls)) i (fun _ => True) (batches now timely) fun _ _ => True := by
  induction timely with
  | nil => exact gives_pure trivial
  | cons t timely ih =>
    cases t with
    | false => exact gives_pure trivial
    | true =>
      have hmark : Ensures (world system) (contract system (discipline calls)) i (fun _ => True) (perform (.mark now) : Route Db)
          fun d s => ⟨i, .mark now, d⟩ ∈ s.log := spec_perform store_keeps fun _ _ _ => trivial
      unfold batches
      refine hmark.bind fun before => ?_
      by_cases hnone : due now before = []
      · rw [if_pos hnone]
        exact .pure fun _ _ _ => trivial
      · rw [if_neg hnone]
        have hdelete : Ensures (world system) (contract system (discipline calls)) i (fun s => ⟨i, .mark now, before⟩ ∈ s.log)
            (commit (.delete (due now before)) : Route Unit) fun _ _ => True :=
          (gives_commit fun s _ h => show Sends calls i (.delete (due now before)) s.db s.log from ⟨_, h, now, rfl, rfl⟩).post
            fun _ _ _ _ => trivial
        refine hdelete.andThen fun _ _ => ?_
        refine ((gives_commit fun s _ _ => show Sends calls i (.remove (due now before)) s.db s.log from trivial).post
          fun _ _ _ _ => trivial).andThen fun _ _ => ih

theorem kept_uploads (t : List Object) : Kept system (discipline calls) fun _ l =>
    ∀ o ∈ t, ∃ e ∈ l, e.tx = .upload o.key o.bytes ∧ o.uploaded = e.before.bucketClock := by
  refine ⟨fun _ _ _ _ _ _ _ _ h o ho => ?_, fun _ _ _ _ _ h => h⟩
  obtain ⟨e, he, hup⟩ := h o ho
  exact ⟨e, List.mem_append_left _ he, hup⟩

theorem gives_discovered {d : Db} (page : Object → Bool) (cutoff : Nat) :
    Ensures (world system) (contract system (discipline calls)) i
      (fun s => ∀ o ∈ d.bucket, ∃ e ∈ s.log, e.tx = .upload o.key o.bytes ∧ o.uploaded = e.before.bucketClock)
      (discovered (((d.bucket.filter page).filter fun o => o.uploaded < cutoff).map fun o => (o.key, o.uploaded / 1000 + grace)))
      fun _ _ => True := by
  unfold discovered
  split
  · exact .pure fun _ _ _ => trivial
  · refine (gives_commit fun s _ h => ?_).post fun _ _ _ _ => trivial
    intro row hrow
    obtain ⟨o, ho, rfl⟩ := List.mem_map.mp hrow
    obtain ⟨e, he, hup, htime⟩ := h o (List.mem_of_mem_filter (List.mem_of_mem_filter ho))
    exact ⟨e, he, ⟨o.bytes, hup⟩, by rw [← htime]⟩

theorem gives_runGc (scheduled : Nat) (page : Object → Bool) (timely : List Bool) (chosen : MutationRow → Bool) :
    Ensures (world system) (contract system (discipline calls)) i (fun _ => True) (runGc scheduled page timely chosen)
      fun _ _ => True := by
  have hbucket : Ensures (world system) (contract system (discipline calls)) i (fun _ => True) (read : Route Db)
      fun d s => ∀ o ∈ d.bucket, ∃ e ∈ s.log, e.tx = .upload o.key o.bytes ∧ o.uploaded = e.before.bucketClock :=
    (spec_read (.const True) (fun d => kept_uploads d.bucket) fun _ _ h => h.objects.bucket).post fun _ _ _ h => h.2
  unfold runGc
  refine hbucket.bind fun d => (gives_discovered page _).andThen fun _ _ => (gives_batches _ _).andThen fun _ _ => ?_
  exact (gives_commit fun s _ _ => show Sends calls i (.expire (scheduled / 1000 - retention) chosen) s.db s.log from trivial).post
    fun _ _ _ _ => trivial

end

/-! ## Every run -/

section
variable {ι : Type} {calls : ι → Call}

/-- What a call knows when it has returned. -/
def Returned (call : Call) (result : Except Failure Reply) (s : Shared ι Db Tx) : Prop :=
  match call, result with
  | .put request collection record _, .ok (.written o) => Acknowledged request collection record false o s.log
  | .delete request collection record, .ok (.written o) => Acknowledged request collection record true o s.log
  | .get _ collection record, .ok (.read r) => Shown [] collection record r s.log
  | _, _ => True

theorem program_valid (hdistinct : Distinct calls) (i : ι) :
    Valid (world system) (contract system (discipline calls)) i (Returned (calls i)) ((contract system (discipline calls)).fresh i)
      ((calls i).program).run := by
  have hany : Ensures (world system) (contract system (discipline calls)) i ((contract system (discipline calls)).fresh i)
      (calls i).program fun r s => Returned (calls i) (.ok r) s := by
    cases hc : calls i with
    | put request collection record key =>
      have hwrite := gives_write hdistinct (show (calls i).Asks request collection record false from .inl ⟨key, hc, rfl⟩)
        (show false = false → (calls i).key = some key from fun _ => by rw [hc]; rfl)
      exact hwrite.bind fun o => .pure fun s _ h => h
    | delete request collection record =>
      have hwrite := gives_write hdistinct (show (calls i).Asks request collection record true from .inr ⟨hc, rfl⟩)
        (show true = false → (calls i).key = some "" from fun h => by cases h)
      exact hwrite.bind fun o => .pure fun s _ h => h
    | get request collection record =>
      have hinv : ∀ d l, (discipline calls).inv d l → Recorded d l ∧ [] <+: l := fun d l h => ⟨h.recorded, List.nil_prefix⟩
      exact ((gives_get hinv request collection record).weaken fun _ _ _ => trivial).bind fun r => .pure fun s _ h => h
    | runGc scheduled page timely chosen =>
      exact ((gives_runGc scheduled page timely chosen).weaken fun _ _ _ => trivial).bind fun _ => .pure fun _ _ _ => trivial
    | collect chosen =>
      have hlapse : Ensures (world system) (contract system (discipline calls)) i ((contract system (discipline calls)).fresh i)
          (collect chosen) fun _ _ => True :=
        (gives_commit fun s _ _ => show Sends calls i (.lapse chosen) s.db s.log from trivial).post fun _ _ _ _ => trivial
      exact hlapse.bind fun _ => .pure fun _ _ _ => trivial
  refine Valid.post hany fun result s _ h => ?_
  cases result with
  | error e => cases calls i <;> trivial
  | ok r => exact h r rfl

end

end Mikaki.Vault.Records
