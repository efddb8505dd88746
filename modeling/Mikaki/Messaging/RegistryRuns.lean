import Mikaki.Messaging.RegistrySound

/-!
# Devices over runs

How one step moves the head of a device, its enrollments and its journals,
what every run only moves forward, and how a late proof is answered.
-/

namespace Mikaki.Messaging

open Concurrent Rows Transactions
open Mikaki.Vault (Failure)

variable {d d' : Db}

/-! ## One step -/

/-- How the head of a device moves. -/
inductive HeadMoves (d d' : Db) (account device : String) : Prop
  | stays (h : d'.head account device = d.head account device)
  | enrolled (e : EnrollmentRow) (he : e ∈ d.enrollments ∧ e.deviceId = device) (hopen : e.consumedProof = none)
      (hdone : ∃ e' ∈ d'.enrollments, e'.enrollmentId = e.enrollmentId ∧ e'.consumedProof ≠ none)
      (hgen : generationOf (d'.head account device) = generationOf (d.head account device) + 1)
      (hrev : revisionOf (d'.head account device) = revisionOf (d.head account device) + 1)
  | revoked (g : GenerationRow) (hg : g ∈ d.generations ∧ g.device = (account, device)) (hactive : g.status = .active)
      (hdone : ∃ g' ∈ d'.generations, g'.key = g.key ∧ g'.status = .revoked)
      (hgen : generationOf (d'.head account device) = generationOf (d.head account device))
      (hrev : revisionOf (d'.head account device) = revisionOf (d.head account device) + 1)

/-- What a step may do to heads, enrollments and generations. -/
structure Moves (d d' : Db) : Prop where
  heads : ∀ account device, HeadMoves d d' account device
  /-- An enrollment that is consumed has moved the head of its device by one generation and one revision. -/
  enrolls : ∀ e ∈ d.enrollments, e.consumedProof = none → ∀ e' ∈ d'.enrollments, e'.enrollmentId = e.enrollmentId →
    e'.consumedProof ≠ none → ∃ m ∈ d.accounts, m.ownerId = e.ownerId ∧
      generationOf (d'.head m.accountId e.deviceId) = generationOf (d.head m.accountId e.deviceId) + 1 ∧
      revisionOf (d'.head m.accountId e.deviceId) = revisionOf (d.head m.accountId e.deviceId) + 1
  /-- So has a generation that is revoked, by one revision. -/
  revokes : ∀ g ∈ d.generations, g.status = .active → ∀ g' ∈ d'.generations, g'.key = g.key → g'.status = .revoked →
    revisionOf (d'.head g.accountId g.deviceId) = revisionOf (d.head g.accountId g.deviceId) + 1
  enrollments : ∀ e ∈ d.enrollments, ∃ e' ∈ d'.enrollments, e'.enrollmentId = e.enrollmentId ∧
    ∀ x, e.consumedProof = some x → e'.consumedProof = some x
  generations : ∀ g ∈ d.generations, ∃ g' ∈ d'.generations, g.Stays g'

theorem Moves.same (hd : Registered d) (hh : d'.heads = d.heads) (hg : d'.generations = d.generations)
    (he : ∀ e ∈ d.enrollments, e ∈ d'.enrollments) (hu : Unique EnrollmentRow.enrollmentId d'.enrollments) : Moves d d' := by
  refine ⟨fun account device => .stays ?_, ?_, ?_, ?_, ?_⟩
  · unfold Db.head
    rw [hh]
  · intro e hmem hopen e' he' hid hdone
    rw [hu.eq he' (he e hmem) hid] at hdone
    exact absurd hopen hdone
  · intro g hmem hactive g' hg' hkey hrev
    rw [hg] at hg'
    rw [hd.generations.eq hg' hmem hkey, hactive] at hrev
    cases hrev
  · intro e hmem
    exact ⟨e, he e hmem, rfl, fun _ h => h⟩
  · intro g hmem
    exact ⟨g, hg ▸ hmem, .refl g⟩

namespace Completion

variable {p : Completion} {e : EnrollmentRow} {account : String}

theorem Completes.head_new (hd : Registered d) (h : p.Completes d d' e account) :
    d'.head account e.deviceId = some (newHead e account) :=
  (h.registered hd).heads.lookup.mpr ⟨h.mem_heads.mpr (.inl rfl), rfl⟩

theorem Completes.head_other (hd : Registered d) (h : p.Completes d d' e account) {a b : String}
    (hne : (a, b) ≠ (account, e.deviceId)) : d'.head a b = d.head a b := by
  refine Option.ext fun x => ?_
  unfold Db.head
  rw [(h.registered hd).heads.lookup, hd.heads.lookup, h.mem_heads]
  constructor
  · intro ⟨hx, hk⟩
    rcases hx with rfl | ⟨hx, -⟩
    · exact absurd hk.symm hne
    · exact ⟨hx, hk⟩
  · intro ⟨hx, hk⟩
    exact ⟨.inr ⟨hx, fun hk' => hne (hk.symm.trans hk')⟩, hk⟩

/-- The head moves by one generation and one revision. -/
theorem Completes.advances (hd : Registered d) (h : p.Completes d d' e account) :
    generationOf (d'.head account e.deviceId) = generationOf (d.head account e.deviceId) + 1 ∧
      revisionOf (d'.head account e.deviceId) = revisionOf (d.head account e.deviceId) + 1 := by
  obtain ⟨-, -, -, -, -, hrev, hgen, -⟩ := ready_some h.ready
  rw [h.head_new hd, hrev, hgen]
  exact ⟨rfl, rfl⟩

theorem Completes.moves (hd : Registered d) (h : p.Completes d d' e account) : Moves d d' := by
  obtain ⟨⟨he, -⟩, -, -, hopen, -⟩ := ready_some h.ready
  obtain ⟨hgen, hrev⟩ := h.advances hd
  refine ⟨?_, ?_, ?_, ?_, ?_⟩
  · intro a b
    by_cases hk : (a, b) = (account, e.deviceId)
    · obtain ⟨rfl, rfl⟩ := Prod.mk.inj hk
      exact .enrolled e ⟨he, rfl⟩ hopen ⟨_, h.mem_enrollments.mpr (.inl rfl), rfl, by simp⟩ hgen hrev
    · exact .stays (h.head_other hd hk)
  · intro x hx hxo x' hx' hid hdone
    rcases h.mem_enrollments.mp hx' with rfl | ⟨hx', -⟩
    · obtain rfl := hd.enrollments.eq he hx hid
      obtain ⟨m, hm, hmo, rfl⟩ := ready_account h.ready
      exact ⟨m, hm, hmo, hgen, hrev⟩
    · rw [hd.enrollments.eq hx' hx hid] at hdone
      exact absurd hxo hdone
  · intro g hg hactive g' hg' hkey hrevoked
    rcases h.mem_generations hg' with rfl | ⟨o, ho, ⟨hret, rfl⟩ | ⟨-, rfl⟩⟩
    · cases hrevoked
    · obtain rfl := hd.generations.eq ho hg hkey
      obtain ⟨ha, hdev⟩ := Prod.mk.inj (retires_device hret)
      rw [ha, hdev]
      exact hrev
    · rw [hd.generations.eq ho hg hkey, hactive] at hrevoked
      cases hrevoked
  · intro x hx
    by_cases hid : x.enrollmentId = e.enrollmentId
    · obtain rfl := hd.enrollments.eq hx he hid
      exact ⟨_, h.mem_enrollments.mpr (.inl rfl), rfl, fun y hy => absurd (hy.symm.trans hopen) (by simp)⟩
    · exact ⟨x, h.mem_enrollments.mpr (.inr ⟨hx, hid⟩), rfl, fun _ hy => hy⟩
  · intro g hg
    rw [h.generations]
    by_cases hret : retires d e account g
    · exact ⟨g.retire, List.mem_append_left _ (mem_update.mpr ⟨g, hg, .inl ⟨hret, rfl⟩⟩), .retire g⟩
    · exact ⟨g, List.mem_append_left _ (mem_update.mpr ⟨g, hg, .inr ⟨hret, rfl⟩⟩), .refl g⟩

end Completion

theorem Challenge.moves {p : Challenge} (hd : Registered d) (h : p.run d = some d') : Moves d d' := by
  have hd' := Challenge.registered hd h
  obtain ⟨hh, hg, he | ⟨e, -, -, he⟩⟩ := Challenge.run_eq h
  · exact .same hd hh hg (fun x hx => he ▸ hx) hd'.enrollments
  · exact .same hd hh hg (fun x hx => he ▸ List.mem_append_left _ hx) hd'.enrollments

theorem Cas.moves {cas : Cas} {scope secret : String} (hd : Registered d) (h : cas.run scope secret d = some d') :
    Moves d d' := by
  obtain rfl := Cas.run_eq h
  have hsame : Moves d d := .same hd rfl rfl (fun _ h => h) hd.enrollments
  refine { hsame with heads := fun _ _ => .stays rfl, revokes := ?_, generations := ?_ }
  · intro g hg hactive g' hg' hkey hrevoked
    obtain ⟨o, ho, ⟨-, rfl⟩ | ⟨-, rfl⟩⟩ := mem_update.mp hg'
    · obtain rfl := hd.generations.eq ho hg hkey
      exact absurd (hactive.symm.trans hrevoked) (by simp)
    · rw [hd.generations.eq ho hg hkey, hactive] at hrevoked
      cases hrevoked
  · intro g hg
    by_cases hs : cas.selects scope secret d g
    · exact ⟨cas.move g, mem_update.mpr ⟨g, hg, .inl ⟨hs, rfl⟩⟩, rfl, rfl, rfl, rfl, id⟩
    · exact ⟨g, mem_update.mpr ⟨g, hg, .inr ⟨hs, rfl⟩⟩, .refl g⟩

theorem revoke_moves (hd : Registered d) (device secret : String) (expected : Nat) :
    Moves d (revokeHead device secret expected (revokeGeneration device secret expected d)) := by
  rw [revoke_eq hd]
  have hhead : ∀ a b, lookup HeadRow.key (a, b)
        (update (d.revoking device secret expected) (fun x => { x with revision := x.revision + 1 }) d.heads) =
      (d.head a b).map fun x =>
        if d.revoking device secret expected x then { x with revision := x.revision + 1 } else x := by
    intro a b
    refine lookup_map fun x => ?_
    by_cases hx : d.revoking device secret expected x
    · rw [if_pos hx]
      rfl
    · rw [if_neg hx]
  -- The head of a generation that is revoked moves.
  have hmoves : ∀ g ∈ d.generations, d.revocable device secret expected g → ∃ x, d.head g.accountId g.deviceId = some x ∧
      d.revoking device secret expected x := by
    intro g hg hs
    obtain ⟨-, -, ⟨x, hx, hat, -⟩, -⟩ := id hs
    exact ⟨x, hd.heads.lookup.mpr ⟨hx, hat.1⟩, g, hg, hat, hs⟩
  have hsame : Moves d d := .same hd rfl rfl (fun _ h => h) hd.enrollments
  refine ⟨?_, ?_, ?_, hsame.enrollments, ?_⟩
  · intro a b
    cases hx : d.head a b with
    | none =>
      refine .stays ?_
      unfold Db.head
      rw [hhead a b, hx]
      exact hx.symm
    | some x =>
      by_cases hr : d.revoking device secret expected x
      · obtain ⟨g, hg, hat, hs⟩ := id hr
        refine .revoked g ⟨hg, hat.1.symm.trans (lookup_mem hx).2⟩ hs.2.2.2.2
          ⟨g.retire, mem_update.mpr ⟨g, hg, .inl ⟨hs, rfl⟩⟩, rfl, rfl⟩ ?_ ?_
        · unfold Db.head at hx ⊢
          rw [hhead a b, Db.head, hx, Option.map_some, if_pos hr]
          rfl
        · unfold Db.head at hx ⊢
          rw [hhead a b, Db.head, hx, Option.map_some, if_pos hr]
          rfl
      · refine .stays ?_
        unfold Db.head at hx ⊢
        rw [hhead a b, Db.head, hx, Option.map_some, if_neg hr]
  · intro e he hopen e' he' hid hdone
    rw [hd.enrollments.eq he' he hid] at hdone
    exact absurd hopen hdone
  · intro g hg hactive g' hg' hkey hrevoked
    obtain ⟨o, ho, ⟨hs, rfl⟩ | ⟨-, rfl⟩⟩ := mem_update.mp hg'
    · obtain rfl := hd.generations.eq ho hg hkey
      obtain ⟨x, hx, hr⟩ := hmoves o ho hs
      unfold Db.head at hx ⊢
      rw [hhead o.accountId o.deviceId, Db.head, hx, Option.map_some, if_pos hr]
      rfl
    · rw [hd.generations.eq ho hg hkey, hactive] at hrevoked
      cases hrevoked
  · intro g hg
    by_cases hs : d.revocable device secret expected g
    · exact ⟨g.retire, mem_update.mpr ⟨g, hg, .inl ⟨hs, rfl⟩⟩, .retire g⟩
    · exact ⟨g, mem_update.mpr ⟨g, hg, .inr ⟨hs, rfl⟩⟩, .refl g⟩

theorem Tx.moves (hd : Registered d) {tx : Tx} (h : tx.run d = some d') : Moves d d' := by
  cases tx with
  | openAccount secret accountId =>
    obtain ⟨hh, hg, he⟩ := openAccount_eq h
    exact .same hd hh hg (fun x hx => he ▸ hx) (he ▸ hd.enrollments)
  | challenge p => exact Challenge.moves hd h
  | complete p =>
    cases hr : d.ready p.enrollmentId p.secretHash with
    | none =>
      obtain rfl := Completion.run_none hd hr h
      exact .same hd rfl rfl (fun _ h => h) hd.enrollments
    | some x => exact (Completion.run_some hd hr h).moves hd
  | advance scope secret cas => exact Cas.moves hd h
  | revoke device secret expected =>
    obtain rfl := Option.some.inj h
    exact revoke_moves hd device secret expected

/-! ## Journals -/

/-- What every run only moves forward. -/
structure Later (d d' : Db) : Prop where
  heads : ∀ account device, generationOf (d.head account device) ≤ generationOf (d'.head account device) ∧
    revisionOf (d.head account device) ≤ revisionOf (d'.head account device)
  enrollments : ∀ e ∈ d.enrollments, ∃ e' ∈ d'.enrollments, e'.enrollmentId = e.enrollmentId ∧
    ∀ x, e.consumedProof = some x → e'.consumedProof = some x
  generations : ∀ g ∈ d.generations, ∃ g' ∈ d'.generations, g.Stays g'

theorem GenerationRow.Stays.trans {a b c : GenerationRow} (h : a.Stays b) (h' : b.Stays c) : a.Stays c :=
  ⟨h'.key.trans h.key, h'.publicKey.trans h.publicKey, h'.scopeHash.trans h.scopeHash, h'.enrollmentId.trans h.enrollmentId,
    fun hs => h.status (h'.status hs)⟩

theorem Later.refl (d : Db) : Later d d :=
  ⟨fun _ _ => ⟨Nat.le_refl _, Nat.le_refl _⟩, fun e he => ⟨e, he, rfl, fun _ h => h⟩, fun g hg => ⟨g, hg, .refl g⟩⟩

theorem Later.trans {a b c : Db} (h : Later a b) (h' : Later b c) : Later a c := by
  refine ⟨fun account device => ?_, fun e he => ?_, fun g hg => ?_⟩
  · obtain ⟨hg, hr⟩ := h.heads account device
    obtain ⟨hg', hr'⟩ := h'.heads account device
    exact ⟨hg.trans hg', hr.trans hr'⟩
  · obtain ⟨x, hx, hid, hp⟩ := h.enrollments e he
    obtain ⟨y, hy, hid', hp'⟩ := h'.enrollments x hx
    exact ⟨y, hy, hid'.trans hid, fun z hz => hp' z (hp z hz)⟩
  · obtain ⟨x, hx, hs⟩ := h.generations g hg
    obtain ⟨y, hy, hs'⟩ := h'.generations x hx
    exact ⟨y, hy, hs.trans hs'⟩

theorem Moves.later (h : Moves d d') : Later d d' := by
  refine ⟨fun account device => ?_, h.enrollments, h.generations⟩
  cases h.heads account device with
  | stays h => rw [h]; exact ⟨Nat.le_refl _, Nat.le_refl _⟩
  | enrolled _ _ _ _ hgen hrev => rw [hgen, hrev]; exact ⟨Nat.le_succ _, Nat.le_succ _⟩
  | revoked _ _ _ _ hgen hrev => rw [hgen, hrev]; exact ⟨Nat.le_refl _, Nat.le_succ _⟩

theorem Later.drift (h : registry.drift d d') : Later d d' := by
  obtain ⟨-, hh, hg, he⟩ := h
  refine ⟨fun account device => ?_, fun e hm => ⟨e, he ▸ hm, rfl, fun _ h => h⟩, fun g hm => ⟨g, hg ▸ hm, .refl g⟩⟩
  unfold Db.head
  rw [hh]
  exact ⟨Nat.le_refl _, Nat.le_refl _⟩

section
variable [Profile] {issuer id secret proof : String} {e : EnrollmentRow} {account : String}

end

/-! ## Every run -/

def Sample.text (n : Nat) (c : Char) : String := String.ofList (List.replicate n c)

/-- A profile in which every proof is good. -/
@[reducible] def Sample.profile : Profile :=
  { decode64 := fun _ => none, encode64 := fun _ => "", digest := fun _ => Sample.text 43 'd'
    verifyProof := fun _ _ _ _ now => some (now, now + 60), sign := fun _ _ _ _ _ => some "binding" }

def Sample.db : Db :=
  { around :=
      { contexts := [⟨"sso", "secret"⟩], sessions := [⟨"sso", "owner", "passkey", 3, 900, false⟩], boundSessions := []
        accounts := [⟨"owner", 3, true⟩], credentials := [⟨"passkey", "owner", true⟩], unixepoch := 100 }
    accounts := [], heads := [], generations := [], enrollments := [] }

def Sample.challenge (id key : Char) (expected : Nat) : Challenge :=
  { enrollmentId := Sample.text 36 id, secretHash := "secret", requestHash := Sample.text 43 id, deviceId := "device"
    expectedRevision := expected, publicKey := Sample.text 43 key, storageId := "storage", keyId := "key"
    nonce := Sample.text 43 'n' }

def Sample.completion (id : Char) : Completion :=
  { enrollmentId := Sample.text 36 id, secretHash := "secret", fingerprint := Sample.text 43 id, scopeHash := Sample.text 43 id
    proofIat := 100, proofExp := 160, proofHash := Sample.text 43 'd' }

/-- The batches of two enrollments of one device, each started and completed. -/
def Sample.batches : List Tx :=
  [.openAccount "secret" (Sample.text 36 'a'), .challenge (Sample.challenge '1' 'x' 0), .complete (Sample.completion '1'),
    .challenge (Sample.challenge '2' 'y' 1), .complete (Sample.completion '2')]

def Sample.after : Db := Sample.batches.foldl (fun d tx => (registry.run tx d).getD d) Sample.db

/-- The callers of the run: each sends one batch. -/
def Sample.entry (i : Nat) (p : Prog (Transactions.Request Failure Db Tx) Transactions.Request.Reply (Except Failure Unit)) :
    Prop := ∃ tx, Sample.batches[i]? = some tx ∧ p = (commit tx : Route Unit).run

theorem alone_commit (tx : Tx) (d : Db) :
    (alone registry Failure.server (commit tx : Route Unit).run d).2 = (registry.run tx d).getD d := by
  cases hrun : registry.run tx d with
  | none => simp only [commit, Prog.query, alone, ExceptT.run, ExceptT.mk, hrun, Option.getD_none]
  | some d => simp only [commit, Prog.query, alone, ExceptT.run, ExceptT.mk, hrun, Option.getD_some]

/-- Callers send their batches one after the other. -/
theorem Sample.runs (txs : List Tx) (n : Nat) (ht : Sample.batches.drop n = txs)
    {c : Config Nat (Shared Nat Db Tx) (Transactions.Request Failure Db Tx) Transactions.Request.Reply (Except Failure Unit)}
    (hc : Runs registry Sample.entry Sample.db c) (hfree : ∀ i, n ≤ i → c.callers i = none) :
    ∃ c', Runs registry Sample.entry Sample.db c' ∧
      c'.state.db = txs.foldl (fun d tx => (registry.run tx d).getD d) c.state.db := by
  induction txs generalizing n c with
  | nil => exact ⟨c, hc, rfl⟩
  | cons tx txs ih =>
    have honly : Prog.Only (∀ tx, · ≠ .note tx) (commit tx : Route Unit).run := .call (fun _ h => by cases h) fun _ => .ret _
    have hget : Sample.batches[n]? = some tx := by
      rw [← List.head?_drop, ht]
      rfl
    have hdrop : Sample.batches.drop (n + 1) = txs := by
      rw [← List.tail_drop, ht]
      rfl
    obtain ⟨c', hc', hdb, hcal⟩ := hc.alone Failure.server (hfree n (Nat.le_refl n)) ⟨tx, hget, rfl⟩ honly
    have hfree' : ∀ i, n + 1 ≤ i → c'.callers i = none := by
      intro i hi
      rw [hcal, Function.update_of_ne (by omega)]
      exact hfree i (by omega)
    obtain ⟨c'', hc'', hdb'⟩ := ih (n + 1) hdrop hc' hfree'
    refine ⟨c'', hc'', ?_⟩
    rw [hdb', hdb, alone_commit]
    rfl

theorem Sample.reached :
    ∃ c : Config Nat (Shared Nat Db Tx) (Transactions.Request Failure Db Tx) Transactions.Request.Reply (Except Failure Unit),
      Runs registry Sample.entry Sample.db c ∧ c.state.db = Sample.after := by
  unfold Sample.after
  exact Sample.runs Sample.batches 0 rfl (c := .initial (.initial Sample.db)) .refl fun _ _ => rfl

/-- The first enrollment, as it stands after the second. -/
theorem Sample.consumed : (enrollment Sample.after (Sample.text 36 '1') "secret").map (fun p => p.1.consumedProof) =
    some (some (Sample.text 43 'd')) := by
  decide +kernel

theorem Sample.refused :
    (alone registry Failure.server
      (let _ := Sample.profile; complete "https://op.example" (Sample.text 36 '1') "secret" (.ok "proof")).run
      Sample.after).1 = .error (.response 409 "device_generation_changed") := by
  decide +kernel

end Mikaki.Messaging
