import Mikaki.Messaging.Registry

/-!
# The registry in every run

What each batch does to the rows, what all of them keep, and how a device's
head moves. The callers may be any programs.
-/

namespace Mikaki.Messaging

open Concurrent Rows Transactions

/-! ## What is kept -/

/-- Keys, limits, and what the rows of a device have to do with each other. -/
structure Registered (d : Db) : Prop where
  heads : Unique HeadRow.key d.heads
  generations : Unique GenerationRow.key d.generations
  publicKeys : Unique GenerationRow.publicKeyOf d.generations
  scopes : Unique GenerationRow.scopeHash d.generations
  enrolled : Unique GenerationRow.enrollmentId d.generations
  enrollments : Unique EnrollmentRow.enrollmentId d.enrollments
  /-- The row of a head's generation has its revision. -/
  current : ∀ h ∈ d.heads, ∃ g ∈ d.generations, g.At h ∧ g.revision = h.revision
  /-- Only the generation of a head is active. -/
  headed : ∀ g ∈ d.generations, ∃ h ∈ d.heads, h.key = g.device ∧ g.generation ≤ h.generation ∧
    (g.status = .active → h.generation = g.generation)
  /-- A generation is that of a consumed enrollment. -/
  consumed : ∀ g ∈ d.generations, ∃ e ∈ d.enrollments, e.enrollmentId = g.enrollmentId ∧ e.consumedProof ≠ none
  fewHeads : ∀ account, (d.headsOf account).length ≤ 8
  fewGenerations : ∀ account, (d.generationsOf account).length ≤ 64

variable {d d' : Db}

theorem Registered.empty (h : d.heads = [] ∧ d.generations = [] ∧ d.enrollments = []) : Registered d := by
  obtain ⟨hh, hg, he⟩ := h
  refine ⟨hh ▸ .nil, hg ▸ .nil, hg ▸ .nil, hg ▸ .nil, hg ▸ .nil, he ▸ .nil, ?_, ?_, ?_, ?_, ?_⟩
  all_goals simp [hh, hg, Db.headsOf, Db.generationsOf]

theorem Registered.same (h : Registered d) (hh : d'.heads = d.heads) (hg : d'.generations = d.generations)
    (he : d'.enrollments = d.enrollments) : Registered d' := by
  refine ⟨hh ▸ h.heads, hg ▸ h.generations, hg ▸ h.publicKeys, hg ▸ h.scopes, hg ▸ h.enrolled, he ▸ h.enrollments, ?_, ?_,
    ?_, ?_, ?_⟩
  · rw [hh, hg]; exact h.current
  · rw [hh, hg]; exact h.headed
  · rw [hg, he]; exact h.consumed
  · unfold Db.headsOf; rw [hh]; exact h.fewHeads
  · unfold Db.generationsOf; rw [hg]; exact h.fewGenerations

/-- An open enrollment has made no generation. -/
theorem Registered.unmade (h : Registered d) {e : EnrollmentRow} (he : e ∈ d.enrollments) (hn : e.consumedProof = none) :
    ∀ g ∈ d.generations, g.enrollmentId ≠ e.enrollmentId := by
  intro g hg heq
  obtain ⟨x, hx, hxe, hxn⟩ := h.consumed g hg
  rw [h.enrollments.eq hx he (hxe.trans heq)] at hxn
  exact hxn hn

theorem GenerationRow.At.eq (h : Registered d) {g g' : GenerationRow} {x : HeadRow} (hg : g ∈ d.generations)
    (hg' : g' ∈ d.generations) (ha : g.At x) (ha' : g'.At x) : g = g' := by
  have hd := ha.1.symm.trans ha'.1
  have hgen := ha.2.symm.trans ha'.2
  exact h.generations.eq hg hg' (Prod.ext (Prod.ext_iff.mp hd).1 (Prod.ext (Prod.ext_iff.mp hd).2 hgen))

/-! ## Completing an enrollment -/

theorem ready_account {id secret : String} {e : EnrollmentRow} {account : String} (h : d.ready id secret = some (e, account)) :
    ∃ m ∈ d.accounts, m.ownerId = e.ownerId ∧ m.accountId = account := by
  simp only [Db.ready, Option.bind_eq_bind, Option.bind_eq_some_iff, Option.pure_def, Option.some.injEq, Prod.mk.injEq] at h
  obtain ⟨x, -, m, hm, -, -, rfl, rfl⟩ := h
  exact ⟨m, (lookup_mem hm).1, (lookup_mem hm).2, rfl⟩

theorem ready_some {id secret : String} {e : EnrollmentRow} {account : String} (h : d.ready id secret = some (e, account)) :
    (e ∈ d.enrollments ∧ e.enrollmentId = id) ∧ e.secretHash = secret ∧
      d.liveOwner e.ownerId e.credentialId e.secretHash ∧ e.consumedProof = none ∧ e.expiresAt > d.now ∧
      revisionOf (d.head account e.deviceId) = e.expectedRevision ∧
      generationOf (d.head account e.deviceId) + 1 = e.generation ∧
      (d.generationsOf account).length < 64 ∧ ((d.head account e.deviceId).isSome ∨ (d.headsOf account).length < 8) := by
  simp only [Db.ready, Option.bind_eq_bind, Option.bind_eq_some_iff, require_eq_some, Option.pure_def, Option.some.injEq,
    Prod.mk.injEq] at h
  obtain ⟨x, hx, m, hm, -, ⟨hs, hl, hn, hexp, hr, hg, -, hlg, hlh⟩, rfl, rfl⟩ := h
  exact ⟨lookup_mem hx, hs, hl, hn, hexp, hr, hg, hlg, hlh⟩

/-- The database with some generations retired. -/
def Db.retiring (d : Db) (q : GenerationRow → Prop) [DecidablePred q] : Db :=
  { d with generations := update q GenerationRow.retire d.generations }

/-- Retiring generations leaves an enrollment as ready as it was. -/
theorem ready_retiring (d : Db) (q : GenerationRow → Prop) [DecidablePred q] (id secret : String) :
    (d.retiring q).ready id secret = d.ready id secret := by
  unfold Db.ready
  refine Option.bind_congr fun e _ => Option.bind_congr fun m _ => ?_
  have hkey : (∃ g ∈ (d.retiring q).generations, g.accountId = m.accountId ∧ g.publicKey = e.publicKey) ↔
      ∃ g ∈ d.generations, g.accountId = m.accountId ∧ g.publicKey = e.publicKey := exists_update fun _ _ => Iff.rfl
  have hcount : ((d.retiring q).generationsOf m.accountId).length = (d.generationsOf m.accountId).length :=
    length_filter_update fun _ _ => rfl
  simp only [hkey, hcount]
  rfl

namespace Completion

variable (p : Completion)

/-- The generation that a completion of the enrollment retires. -/
def retires (d : Db) (e : EnrollmentRow) (account : String) (g : GenerationRow) : Prop :=
  g.key = (account, e.deviceId, generationOf (d.head account e.deviceId)) ∧ (d.head account e.deviceId).isSome

instance (d : Db) (e : EnrollmentRow) (account : String) : DecidablePred (retires d e account) :=
  fun _ => inferInstanceAs (Decidable (_ ∧ _))

/-- The head that a completion publishes. -/
def newHead (e : EnrollmentRow) (account : String) : HeadRow :=
  { accountId := account, deviceId := e.deviceId, generation := e.generation, revision := e.expectedRevision + 1 }

/-- The generation before is retired, the new one is published, and the enrollment is consumed. -/
structure Completes (d d' : Db) (e : EnrollmentRow) (account : String) : Prop where
  ready : d.ready p.enrollmentId p.secretHash = some (e, account)
  fresh : ∀ o ∈ d.generations, o.key ≠ (p.generation e account).key ∧ o.publicKeyOf ≠ (p.generation e account).publicKeyOf ∧
    o.scopeHash ≠ p.scopeHash ∧ o.enrollmentId ≠ e.enrollmentId
  generations : d'.generations = update (retires d e account) GenerationRow.retire d.generations ++ [p.generation e account]
  heads : (d.head account e.deviceId = none ∧ d'.heads = d.heads ++ [newHead e account]) ∨
    ∃ h, d.head account e.deviceId = some h ∧ d'.heads = replace HeadRow.key (newHead e account) d.heads
  enrollments : d'.enrollments =
    replace EnrollmentRow.enrollmentId { e with consumedProof := some p.proofHash } d.enrollments
  accounts : d'.accounts = d.accounts

variable {p}

theorem retire_none (h : d.ready p.enrollmentId p.secretHash = none) : p.retire d = d := by
  unfold retire
  rw [h]

theorem retire_some {e : EnrollmentRow} {account : String} (h : d.ready p.enrollmentId p.secretHash = some (e, account)) :
    p.retire d = d.retiring (retires d e account) := by
  unfold retire
  rw [h]
  cases hh : d.head account e.deviceId with
  | none =>
    have hn : ∀ g ∈ d.generations, ¬retires d e account g := by
      intro g _ hg
      rw [retires, hh] at hg
      cases hg.2
    unfold Db.retiring
    simp only [hh, update_none hn]
  | some h =>
    have hc : ∀ g ∈ d.generations, g.key = (account, e.deviceId, h.generation) ↔ retires d e account g := by
      intro g _
      unfold retires
      rw [hh]
      exact ⟨fun h => ⟨h, rfl⟩, fun h => h.1⟩
    unfold Db.retiring
    simp only [hh, update_congr hc]

/-- Without a generation of the enrollment nothing is published or consumed. -/
theorem publish_unmade (h : ∀ g ∈ d.generations, g.enrollmentId ≠ p.enrollmentId) : p.publish d = some d := by
  unfold publish
  rw [List.find?_eq_none.mpr fun g hg => by simpa using h g hg]

theorem consume_unmade (h : ∀ g ∈ d.generations, g.enrollmentId ≠ p.enrollmentId) : p.consume d = d := by
  unfold consume
  have hn : ∀ e ∈ d.enrollments, ¬(p.pending d e ∧ p.published d) := by
    intro e _ hp
    obtain ⟨-, g, hg, hge, -⟩ := hp
    exact h g hg hge
  rw [update_none hn]

/-- Where the enrollment is not ready, the batch changes nothing. -/
theorem run_none (hd : Registered d) (hn : d.ready p.enrollmentId p.secretHash = none) (h : p.run d = some d') : d' = d := by
  simp only [run, retire_none hn, complete, hn, Option.bind_eq_bind, Option.bind_eq_some_iff, Option.some.injEq,
    require_eq_some, Option.pure_def, exists_eq_left'] at h
  obtain ⟨d₁, hp, -, -, rfl⟩ := h
  have hpub : p.publish d = some d := by
    unfold publish
    cases hf : d.generations.find? (·.enrollmentId = p.enrollmentId) with
    | none => rfl
    | some g =>
      have hg := List.mem_of_find?_eq_some hf
      have hge : g.enrollmentId = p.enrollmentId := by simpa using List.find?_some hf
      have hnone : ¬∃ e ∈ d.enrollments, p.pending d e := by
        intro he
        obtain ⟨e, he, hid, -, hopen, -⟩ := he
        exact hd.unmade he hopen g hg (hge.trans hid.symm)
      simp only [if_neg hnone]
  obtain rfl : d₁ = d := Option.some.inj (hp.symm.trans hpub)
  unfold consume
  have hn : ∀ e ∈ d₁.enrollments, ¬(p.pending d₁ e ∧ p.published d₁) := by
    intro e he hp
    obtain ⟨⟨hid, -, hopen, -⟩, g, hg, hge, -⟩ := hp
    exact hd.unmade he hopen g hg (hge.trans hid.symm)
  rw [update_none hn]

/-- The head before an enrollment that was ready. -/
theorem head_ready {e : EnrollmentRow} {account : String} (hr : d.ready p.enrollmentId p.secretHash = some (e, account))
    {h : HeadRow} (hh : d.head account e.deviceId = some h) :
    (h ∈ d.heads ∧ h.key = (account, e.deviceId)) ∧ h.revision = e.expectedRevision ∧ h.generation + 1 = e.generation := by
  obtain ⟨-, -, -, -, -, hrev, hgen, -⟩ := ready_some hr
  rw [hh] at hrev hgen
  exact ⟨lookup_mem hh, hrev, hgen⟩

/-- The head of a generation. -/
def headOf (g : GenerationRow) : HeadRow :=
  { accountId := g.accountId, deviceId := g.deviceId, generation := g.generation, revision := g.revision }

/-- What is published of the enrollment's generation, to a head that it may follow. -/
theorem publish_some {g : GenerationRow} (hf : d.generations.find? (·.enrollmentId = p.enrollmentId) = some g)
    (hp : ∃ e ∈ d.enrollments, p.pending d e)
    (hnext : ∀ x, d.head g.accountId g.deviceId = some x → x.revision + 1 = g.revision ∧ x.generation + 1 = g.generation)
    (h : p.publish d = some d') :
    (d.head g.accountId g.deviceId = none ∧ d' = { d with heads := d.heads ++ [headOf g] }) ∨
      ∃ x, d.head g.accountId g.deviceId = some x ∧
        d' = { d with
          heads := update (fun x => x.key = g.device) (fun x => { x with generation := g.generation, revision := g.revision })
            d.heads } := by
  unfold publish at h
  simp only [hf, if_pos hp] at h
  cases hh : d.head g.accountId g.deviceId with
  | none =>
    simp only [hh, Option.bind_eq_bind, Option.bind_eq_some_iff, require_eq_some, Option.pure_def, Option.some.injEq] at h
    obtain ⟨-, -, rfl⟩ := h
    exact .inl ⟨rfl, rfl⟩
  | some x =>
    simp only [hh, if_pos (hnext x hh), Option.bind_eq_bind, Option.bind_eq_some_iff, require_eq_some, Option.pure_def,
      Option.some.injEq] at h
    obtain ⟨-, -, rfl⟩ := h
    exact .inr ⟨x, rfl, rfl⟩

/-- Rows under the head's key are the head. -/
theorem update_head (d : Db) (e : EnrollmentRow) (account : String) :
    update (fun h => h.key = (account, e.deviceId))
        (fun h => { h with generation := e.generation, revision := e.expectedRevision + 1 }) d.heads =
      replace HeadRow.key (newHead e account) d.heads := by
  unfold update replace
  refine List.map_congr_left fun h hh => ?_
  by_cases hkey : h.key = (account, e.deviceId)
  · obtain ⟨ha, hdev⟩ := Prod.mk.inj hkey
    have hnew : h.key = (newHead e account).key := hkey
    rw [if_pos hkey, if_pos hnew, newHead, ← ha, ← hdev]
  · have hnew : h.key ≠ (newHead e account).key := hkey
    rw [if_neg hkey, if_neg hnew]

/-- The generation that was inserted is published. -/
theorem publish_made {gs : List GenerationRow} {e : EnrollmentRow} {account : String}
    (hr : d.ready p.enrollmentId p.secretHash = some (e, account)) (hgs : ∀ g ∈ gs, g.enrollmentId ≠ p.enrollmentId)
    {d₂ : Db} (h : p.publish { d with generations := gs ++ [p.generation e account] } = some d₂) :
    ∃ heads, d₂ = { d with heads, generations := gs ++ [p.generation e account] } ∧
      ((d.head account e.deviceId = none ∧ heads = d.heads ++ [newHead e account]) ∨
        ∃ x, d.head account e.deviceId = some x ∧ heads = replace HeadRow.key (newHead e account) d.heads) := by
  obtain ⟨⟨he, hid⟩, hsecret, hlive, hopen, hexp, -⟩ := ready_some hr
  have hfind : (gs ++ [p.generation e account]).find? (·.enrollmentId = p.enrollmentId) = some (p.generation e account) := by
    rw [List.find?_append, List.find?_eq_none.mpr fun g hg => by simpa using hgs g hg, Option.none_or]
    simp [generation, hid]
  have hnext : ∀ x, d.head account e.deviceId = some x → x.revision + 1 = e.expectedRevision + 1 ∧ x.generation + 1 = e.generation := by
    intro x hx
    obtain ⟨-, hrev, hgen⟩ := head_ready hr hx
    exact ⟨by rw [hrev], hgen⟩
  rcases publish_some (d := { d with generations := gs ++ [p.generation e account] }) hfind ⟨e, he, hid, hsecret, hopen, hexp, hlive⟩ hnext h with
    ⟨hnone, rfl⟩ | ⟨x, hx, rfl⟩
  · exact ⟨_, rfl, .inl ⟨hnone, rfl⟩⟩
  · exact ⟨_, rfl, .inr ⟨x, hx, update_head d e account⟩⟩

/-- The enrollment is the only one that is consumed. -/
theorem consume_made (hm : p.published d) (hu : Unique EnrollmentRow.enrollmentId d.enrollments) {e : EnrollmentRow}
    (he : e ∈ d.enrollments) (hp : p.pending d e) : (p.consume d).enrollments =
      replace EnrollmentRow.enrollmentId { e with consumedProof := some p.proofHash } d.enrollments := by
  unfold consume update replace
  refine List.map_congr_left fun x hx => ?_
  by_cases hkey : x.enrollmentId = e.enrollmentId
  · obtain rfl := hu.eq hx he hkey
    rw [if_pos ⟨hp, hm⟩, if_pos hkey]
  · have hother : ¬(p.pending d x ∧ p.published d) := fun h => hkey (h.1.1.trans hp.1.symm)
    rw [if_neg hother, if_neg hkey]

/-- Where it is ready, the batch completes it. -/
theorem run_some (hd : Registered d) {e : EnrollmentRow} {account : String}
    (hr : d.ready p.enrollmentId p.secretHash = some (e, account)) (h : p.run d = some d') : p.Completes d d' e account := by
  obtain ⟨⟨he, hid⟩, hsecret, hlive, hopen, hexp, hrev, hgen, -, -⟩ := ready_some hr
  have hunmade : ∀ g ∈ (d.retiring (retires d e account)).generations, g.enrollmentId ≠ p.enrollmentId := by
    intro g hg hge
    obtain ⟨o, ho, ⟨-, rfl⟩ | ⟨-, rfl⟩⟩ := mem_update.mp hg
    · exact hd.unmade he hopen o ho (hge.trans hid.symm)
    · exact hd.unmade he hopen g ho (hge.trans hid.symm)
  simp only [run, retire_some hr, complete, ready_retiring, hr, Option.bind_eq_bind, Option.bind_eq_some_iff,
    require_eq_some, Option.pure_def, Option.some.injEq] at h
  obtain ⟨d₁, hc, d₂, hp, -, hguard, rfl⟩ := h
  by_cases hins : (p.proofIat ≤ (d.retiring (retires d e account)).now ∧
      p.proofExp > (d.retiring (retires d e account)).now) ∧
      ¬∃ o ∈ (d.retiring (retires d e account)).generations, o.key = (p.generation e account).key ∨
        o.publicKeyOf = (p.generation e account).publicKeyOf ∨ o.scopeHash = (p.generation e account).scopeHash ∨
        o.enrollmentId = (p.generation e account).enrollmentId
  · rw [if_pos hins] at hc
    simp only [Option.bind_eq_some_iff, require_eq_some, Option.some.injEq] at hc
    obtain ⟨-, -, rfl⟩ := hc
    have hready : (d.retiring (retires d e account)).ready p.enrollmentId p.secretHash = some (e, account) := by
      rw [ready_retiring, hr]
    obtain ⟨heads, rfl, hheads⟩ := publish_made (d := d.retiring (retires d e account)) hready hunmade hp
    have hmade : p.published { d.retiring (retires d e account) with
        heads, generations := (d.retiring (retires d e account)).generations ++ [p.generation e account] } := by
      refine ⟨p.generation e account, List.mem_append_right _ List.mem_cons_self, hid, rfl, newHead e account, ?_, ⟨rfl, rfl⟩, rfl⟩
      rcases hheads with ⟨-, rfl⟩ | ⟨x, hx, rfl⟩
      · exact List.mem_append_right _ List.mem_cons_self
      · exact replace_mem HeadRow.key _ (lookup_mem hx).1 (lookup_mem hx).2.symm
    have hfresh : ∀ o ∈ d.generations, o.key ≠ (p.generation e account).key ∧
        o.publicKeyOf ≠ (p.generation e account).publicKeyOf ∧ o.scopeHash ≠ p.scopeHash ∧ o.enrollmentId ≠ e.enrollmentId := by
      intro o ho
      have hnone : ¬∃ o ∈ d.generations, o.key = (p.generation e account).key ∨
          o.publicKeyOf = (p.generation e account).publicKeyOf ∨ o.scopeHash = (p.generation e account).scopeHash ∨
          o.enrollmentId = (p.generation e account).enrollmentId :=
        fun hex => hins.2 ((exists_update (f := GenerationRow.retire) fun _ _ => Iff.rfl).mpr hex)
      exact ⟨fun hk => hnone ⟨o, ho, .inl hk⟩, fun hk => hnone ⟨o, ho, .inr (.inl hk)⟩,
        fun hk => hnone ⟨o, ho, .inr (.inr (.inl hk))⟩, fun hk => hnone ⟨o, ho, .inr (.inr (.inr hk))⟩⟩
    exact ⟨hr, hfresh, rfl, hheads, consume_made hmade hd.enrollments he ⟨hid, hsecret, hopen, hexp, hlive⟩, rfl⟩
  · -- Nothing was inserted, so the guard stops the batch.
    rw [if_neg hins] at hc
    obtain rfl := Option.some.inj hc
    obtain rfl := Option.some.inj (hp.symm.trans (publish_unmade hunmade))
    rw [consume_unmade hunmade] at hguard
    obtain ⟨-, ⟨g, hg, hge, -⟩, -⟩ := hguard
    exact absurd hge (hunmade g hg)

/-! ### What a completion keeps -/

variable {e : EnrollmentRow} {account : String}

theorem Completes.mem_heads (h : p.Completes d d' e account) {x : HeadRow} :
    x ∈ d'.heads ↔ x = newHead e account ∨ (x ∈ d.heads ∧ x.key ≠ (account, e.deviceId)) := by
  rcases h.heads with ⟨hnone, hh⟩ | ⟨y, hy, hh⟩
  · rw [hh, mem_snoc]
    constructor
    · intro hx
      rcases hx with hx | hx
      · exact .inr ⟨hx, lookup_eq_none.mp hnone x hx⟩
      · exact .inl hx
    · intro hx
      rcases hx with hx | ⟨hx, -⟩
      · exact .inr hx
      · exact .inl hx
  · rw [hh]
    exact mem_replace HeadRow.key (newHead e account) (lookup_mem hy).1 (lookup_mem hy).2.symm

theorem Completes.mem_generations (h : p.Completes d d' e account) {g : GenerationRow} (hg : g ∈ d'.generations) :
    g = p.generation e account ∨ ∃ o ∈ d.generations, (retires d e account o ∧ g = o.retire) ∨ (¬retires d e account o ∧ g = o) := by
  rw [h.generations] at hg
  rcases List.mem_append.mp hg with hg | hg
  · exact .inr (mem_update.mp hg)
  · exact .inl (List.mem_singleton.mp hg)

theorem retires_device {g : GenerationRow} (h : retires d e account g) : g.device = (account, e.deviceId) := by
  obtain ⟨ha, hrest⟩ := Prod.mk.inj h.1
  obtain ⟨hdev, -⟩ := Prod.mk.inj hrest
  exact Prod.ext ha hdev

/-- A generation of another device stays as it is. -/
theorem Completes.stays (h : p.Completes d d' e account) {g : GenerationRow} (hg : g ∈ d.generations)
    (hn : g.device ≠ (account, e.deviceId)) : g ∈ d'.generations := by
  rw [h.generations]
  exact List.mem_append_left _ (mem_update.mpr ⟨g, hg, .inr ⟨fun hr => hn (retires_device hr), rfl⟩⟩)

/-- The head before is the one that the new head follows. -/
theorem Completes.follows (hd : Registered d) (h : p.Completes d d' e account) {x : HeadRow} (hx : x ∈ d.heads)
    (hk : x.key = (account, e.deviceId)) :
    d.head account e.deviceId = some x ∧ x.revision = e.expectedRevision ∧ x.generation + 1 = e.generation := by
  have hhead : d.head account e.deviceId = some x := hd.heads.lookup.mpr ⟨hx, hk⟩
  obtain ⟨-, hrev, hgen⟩ := head_ready h.ready hhead
  exact ⟨hhead, hrev, hgen⟩

theorem Completes.mem_enrollments (h : p.Completes d d' e account) {x : EnrollmentRow} :
    x ∈ d'.enrollments ↔
      x = { e with consumedProof := some p.proofHash } ∨ (x ∈ d.enrollments ∧ x.enrollmentId ≠ e.enrollmentId) := by
  obtain ⟨⟨he, -⟩, -⟩ := ready_some h.ready
  rw [h.enrollments]
  exact mem_replace EnrollmentRow.enrollmentId { e with consumedProof := some p.proofHash } he rfl

theorem Completes.registered (hd : Registered d) (h : p.Completes d d' e account) : Registered d' := by
  obtain ⟨⟨he, hid⟩, -, -, hopen, -, hrev, hgen, hfewg, hfewh⟩ := ready_some h.ready
  have hkept : ∀ {κ : Type} {k : GenerationRow → κ}, Unique k d.generations → (∀ g, k g.retire = k g) →
      (∀ o ∈ d.generations, k o ≠ k (p.generation e account)) → Unique k d'.generations := by
    intro κ k hu hr hn
    rw [h.generations]
    refine (hu.update fun g _ _ => hr g).snoc fun b hb => ?_
    obtain ⟨o, ho, ⟨-, rfl⟩ | ⟨-, rfl⟩⟩ := mem_update.mp hb
    · rw [hr]
      exact hn o ho
    · exact hn b ho
  refine ⟨?_, hkept hd.generations (fun _ => rfl) fun o ho => (h.fresh o ho).1,
    hkept hd.publicKeys (fun _ => rfl) fun o ho => (h.fresh o ho).2.1, hkept hd.scopes (fun _ => rfl) fun o ho => (h.fresh o ho).2.2.1,
    hkept hd.enrolled (fun _ => rfl) fun o ho => (h.fresh o ho).2.2.2, ?_, ?_, ?_, ?_, ?_, ?_⟩
  · rcases h.heads with ⟨hnone, hh⟩ | ⟨y, hy, hh⟩
    · rw [hh]
      exact hd.heads.snoc (lookup_eq_none.mp hnone)
    · rw [hh]
      exact hd.heads.replace hd.heads (lookup_mem hy).1 (lookup_mem hy).2.symm (lookup_mem hy).2.symm
  · rw [h.enrollments]
    exact hd.enrollments.replace hd.enrollments he rfl rfl
  · intro x hx
    rcases h.mem_heads.mp hx with rfl | ⟨hx, hk⟩
    · refine ⟨p.generation e account, ?_, ⟨rfl, rfl⟩, rfl⟩
      rw [h.generations]
      exact List.mem_append_right _ List.mem_cons_self
    · obtain ⟨g, hg, hat, hgr⟩ := hd.current x hx
      exact ⟨g, h.stays hg fun hdev => hk (hat.1.trans hdev), hat, hgr⟩
  · intro g hg
    rcases h.mem_generations hg with rfl | ⟨o, ho, hcase⟩
    · exact ⟨newHead e account, h.mem_heads.mpr (.inl rfl), rfl, Nat.le_refl _, fun _ => rfl⟩
    · obtain ⟨x, hx, hxk, hxg, hxa⟩ := hd.headed o ho
      by_cases hdev : x.key = (account, e.deviceId)
      · obtain ⟨hhead, -, hnext⟩ := h.follows hd hx hdev
        have hle : o.generation ≤ e.generation := by omega
        rcases hcase with ⟨-, rfl⟩ | ⟨hnot, rfl⟩
        · exact ⟨newHead e account, h.mem_heads.mpr (.inl rfl), hdev.symm.trans hxk, hle, fun hs => by cases hs⟩
        · refine ⟨newHead e account, h.mem_heads.mpr (.inl rfl), hdev.symm.trans hxk, hle, fun hs => absurd ?_ hnot⟩
          -- The generation of the head would have been retired.
          rw [retires, hhead]
          obtain ⟨ha, hdv⟩ := Prod.mk.inj (hxk.symm.trans hdev)
          exact ⟨Prod.ext ha (Prod.ext hdv (hxa hs).symm), rfl⟩
      · rcases hcase with ⟨hret, -⟩ | ⟨-, rfl⟩
        · exact absurd (hxk.trans (retires_device hret)) hdev
        · exact ⟨x, h.mem_heads.mpr (.inr ⟨hx, hdev⟩), hxk, hxg, hxa⟩
  · intro g hg
    rcases h.mem_generations hg with rfl | ⟨o, ho, hcase⟩
    · exact ⟨_, h.mem_enrollments.mpr (.inl rfl), rfl, by simp⟩
    · have hgid : g.enrollmentId = o.enrollmentId := by rcases hcase with ⟨-, rfl⟩ | ⟨-, rfl⟩ <;> rfl
      obtain ⟨x, hx, hxid, hxn⟩ := hd.consumed o ho
      exact ⟨x, h.mem_enrollments.mpr (.inr ⟨hx, fun heq => hd.unmade he hopen o ho (hxid.symm.trans heq)⟩),
        hxid.trans hgid.symm, hxn⟩
  · intro a
    unfold Db.headsOf
    rcases h.heads with ⟨hnone, hh⟩ | ⟨y, hy, hh⟩
    · rw [hh]
      refine length_filter_snoc (hd.fewHeads a) fun ha => ?_
      obtain rfl : account = a := of_decide_eq_true ha
      rw [hnone] at hfewh
      exact hfewh.resolve_left (by simp)
    · rw [hh]
      refine Nat.le_trans (Nat.le_of_eq ?_) (hd.fewHeads a)
      refine length_filter_map fun x hx => ?_
      by_cases hk : x.key = (newHead e account).key
      · rw [if_pos hk, (Prod.mk.inj hk).1]
      · rw [if_neg hk]
  · intro a
    unfold Db.generationsOf
    rw [h.generations]
    have hlen : ((update (retires d e account) GenerationRow.retire d.generations).filter (·.accountId = a)).length =
        (d.generationsOf a).length := length_filter_update fun _ _ => rfl
    refine length_filter_snoc (hlen ▸ hd.fewGenerations a) fun ha => ?_
    obtain rfl : account = a := of_decide_eq_true ha
    rw [hlen]
    exact hfewg

end Completion

/-! ## The other transactions -/

theorem openAccount_eq {secret accountId : String} (h : openAccount secret accountId d = some d') :
    d'.heads = d.heads ∧ d'.generations = d.generations ∧ d'.enrollments = d.enrollments := by
  unfold openAccount at h
  split at h
  · cases h
    exact ⟨rfl, rfl, rfl⟩
  · split at h
    · cases h
      exact ⟨rfl, rfl, rfl⟩
    · simp only [Option.bind_eq_bind, Option.bind_eq_some_iff, Option.pure_def, Option.some.injEq] at h
      obtain ⟨accounts, -, rfl⟩ := h
      exact ⟨rfl, rfl, rfl⟩

/-- A challenge adds an open enrollment, if anything. -/
theorem Challenge.run_eq {p : Challenge} (h : p.run d = some d') :
    d'.heads = d.heads ∧ d'.generations = d.generations ∧
      (d'.enrollments = d.enrollments ∨ ∃ e : EnrollmentRow, e.consumedProof = none ∧
        (∀ b ∈ d.enrollments, b.enrollmentId ≠ e.enrollmentId) ∧ d'.enrollments = d.enrollments ++ [e]) := by
  unfold Challenge.run at h
  split at h
  · cases h
    exact ⟨rfl, rfl, .inl rfl⟩
  split at h
  · cases h
    exact ⟨rfl, rfl, .inl rfl⟩
  dsimp only at h
  split at h
  · simp only [Option.bind_eq_bind, Option.bind_eq_some_iff, Option.pure_def, Option.some.injEq] at h
    obtain ⟨enrollments, hins, rfl⟩ := h
    obtain ⟨⟨-, hnew⟩, happ⟩ := insert_eq_some.mp hins
    exact ⟨rfl, rfl, .inr ⟨_, rfl, hnew, happ.symm⟩⟩
  · cases h
    exact ⟨rfl, rfl, .inl rfl⟩

theorem Challenge.registered {p : Challenge} (hd : Registered d) (h : p.run d = some d') : Registered d' := by
  obtain ⟨hh, hg, he | ⟨e, hopen, hnew, he⟩⟩ := Challenge.run_eq h
  · exact hd.same hh hg he
  · have hsame : Registered { d' with enrollments := d.enrollments } := hd.same hh hg rfl
    refine { hsame with enrollments := he ▸ hd.enrollments.snoc hnew, consumed := fun g hg' => ?_ }
    obtain ⟨x, hx, hxe⟩ := hsame.consumed g hg'
    exact ⟨x, he ▸ List.mem_append_left _ hx, hxe⟩

/-- What no transaction changes in a generation. -/
structure GenerationRow.Stays (g g' : GenerationRow) : Prop where
  key : g'.key = g.key
  publicKey : g'.publicKey = g.publicKey
  scopeHash : g'.scopeHash = g.scopeHash
  enrollmentId : g'.enrollmentId = g.enrollmentId
  status : g'.status = .active → g.status = .active

theorem GenerationRow.Stays.refl (g : GenerationRow) : g.Stays g := ⟨rfl, rfl, rfl, rfl, id⟩

theorem GenerationRow.Stays.retire (g : GenerationRow) : g.Stays g.retire := ⟨rfl, rfl, rfl, rfl, fun h => by cases h⟩

theorem GenerationRow.Stays.at {g g' : GenerationRow} (h : g.Stays g') {x y : HeadRow} (hk : y.key = x.key)
    (hgen : y.generation = x.generation) (ha : g.At x) : g'.At y := by
  obtain ⟨hacc, hrest⟩ := Prod.mk.inj h.key
  obtain ⟨hdev, hg⟩ := Prod.mk.inj hrest
  refine ⟨hk.trans (ha.1.trans (Prod.ext hacc.symm hdev.symm)), hgen.trans (ha.2.trans hg.symm)⟩

/-- Rows that stay, with heads whose revision follows that of their generation, stay registered. -/
theorem Registered.map (hd : Registered d) {f : GenerationRow → GenerationRow} {k : HeadRow → HeadRow}
    (hg : d'.generations = d.generations.map f) (hh : d'.heads = d.heads.map k) (he : d'.enrollments = d.enrollments)
    (hf : ∀ g : GenerationRow, g.Stays (f g)) (hk : ∀ x, (k x).key = x.key ∧ (k x).generation = x.generation)
    (hrev : ∀ x ∈ d.heads, ∀ g ∈ d.generations, g.At x → g.revision = x.revision → (f g).revision = (k x).revision) :
    Registered d' := by
  have hacc : ∀ g, (f g).accountId = g.accountId := fun g => (Prod.mk.inj (hf g).key).1
  have hdev : ∀ g, (f g).device = g.device := fun g => Prod.ext (hacc g) (Prod.mk.inj (Prod.mk.inj (hf g).key).2).1
  have hgen : ∀ g, (f g).generation = g.generation := fun g => (Prod.mk.inj (Prod.mk.inj (hf g).key).2).2
  refine ⟨hh ▸ hd.heads.map fun x _ => (hk x).1, hg ▸ hd.generations.map fun g _ => (hf g).key,
    hg ▸ hd.publicKeys.map fun g _ => Prod.ext (hacc g) (hf g).publicKey, hg ▸ hd.scopes.map fun g _ => (hf g).scopeHash,
    hg ▸ hd.enrolled.map fun g _ => (hf g).enrollmentId, he ▸ hd.enrollments, ?_, ?_, ?_, ?_, ?_⟩
  · rw [hh, hg]
    intro y hy
    obtain ⟨x, hx, rfl⟩ := List.mem_map.mp hy
    obtain ⟨g, hgm, hat, hr⟩ := hd.current x hx
    exact ⟨f g, List.mem_map_of_mem hgm, (hf g).at (hk x).1 (hk x).2 hat, hrev x hx g hgm hat hr⟩
  · rw [hh, hg]
    intro y hy
    obtain ⟨g, hgm, rfl⟩ := List.mem_map.mp hy
    obtain ⟨x, hx, hxk, hle, hact⟩ := hd.headed g hgm
    refine ⟨k x, List.mem_map_of_mem hx, (hk x).1.trans (hxk.trans (hdev g).symm), ?_, fun hs => ?_⟩
    · rw [hgen, (hk x).2]
      exact hle
    · rw [hgen, (hk x).2]
      exact hact ((hf g).status hs)
  · rw [hg, he]
    intro y hy
    obtain ⟨g, hgm, rfl⟩ := List.mem_map.mp hy
    rw [(hf g).enrollmentId]
    exact hd.consumed g hgm
  · intro a
    unfold Db.headsOf
    rw [hh, length_filter_map fun x _ => by rw [(Prod.mk.inj (hk x).1).1]]
    exact hd.fewHeads a
  · intro a
    unfold Db.generationsOf
    rw [hg, length_filter_map fun g _ => by rw [hacc g]]
    exact hd.fewGenerations a

/-! ### Journal heads -/

def Cas.selects (self : Cas) (scope secret : String) (d : Db) (g : GenerationRow) : Prop :=
  g.scopeHash = scope ∧ g.headRevision = self.expected.revision ∧ g.headHash = self.expected.hash ∧ g.status = .active ∧
    d.owned secret g

instance (cas : Cas) (scope secret : String) (d : Db) : DecidablePred (cas.selects scope secret d) :=
  fun _ => inferInstanceAs (Decidable (_ ∧ _))

def Cas.move (self : Cas) (g : GenerationRow) : GenerationRow :=
  { g with headRevision := self.next.revision, headHash := self.next.hash }

theorem Cas.run_eq {cas : Cas} {scope secret : String} (h : cas.run scope secret d = some d') :
    d' = { d with generations := update (cas.selects scope secret d) cas.move d.generations } := (Option.some.inj h).symm

theorem Cas.registered {cas : Cas} {scope secret : String} (hd : Registered d) (h : cas.run scope secret d = some d') :
    Registered d' := by
  obtain rfl := Cas.run_eq h
  refine hd.map rfl (List.map_id _).symm rfl (fun g => ?_) (fun _ => ⟨rfl, rfl⟩) fun x hx g hg hat hr => ?_
  · by_cases hs : cas.selects scope secret d g
    · rw [if_pos hs]
      exact ⟨rfl, rfl, rfl, rfl, id⟩
    · rw [if_neg hs]
      exact .refl g
  · by_cases hs : cas.selects scope secret d g
    · rw [if_pos hs]
      exact hr
    · rw [if_neg hs]
      exact hr

/-! ### Revocations -/

def Db.revocable (d : Db) (device secret : String) (expected : Nat) (g : GenerationRow) : Prop :=
  g.deviceId = device ∧ g.revision = expected ∧ (∃ h ∈ d.heads, g.At h ∧ h.revision = expected) ∧
    d.holds g.accountId secret ∧ g.status = .active

instance (d : Db) (device secret : String) (expected : Nat) : DecidablePred (d.revocable device secret expected) :=
  fun _ => inferInstanceAs (Decidable (_ ∧ _))

/-- The head of a generation that is revoked. -/
def Db.revoking (d : Db) (device secret : String) (expected : Nat) (x : HeadRow) : Prop :=
  ∃ g ∈ d.generations, g.At x ∧ d.revocable device secret expected g

instance (d : Db) (device secret : String) (expected : Nat) : DecidablePred (d.revoking device secret expected) :=
  fun _ => List.decidableBEx _ _

/-- The second statement finds the heads whose generation the first one has revoked. -/
theorem revokeHead_selects (hd : Registered d) (device secret : String) (expected : Nat) {x : HeadRow} (hx : x ∈ d.heads) :
    (x.deviceId = device ∧ x.revision = expected ∧
      (∃ g ∈ (revokeGeneration device secret expected d).generations, g.At x ∧ g.status = .revoked ∧ g.revision = expected + 1) ∧
      d.holds x.accountId secret) ↔ d.revoking device secret expected x := by
  constructor
  · intro ⟨_, hr, ⟨g, hg, hat, hst, hgr⟩, _⟩
    obtain ⟨o, ho, ⟨hsel, rfl⟩ | ⟨_, rfl⟩⟩ := mem_update.mp hg
    · exact ⟨o, ho, hat, hsel⟩
    · -- The row of the head's generation has the head's revision.
      obtain ⟨o, ho', hat', hor⟩ := hd.current x hx
      obtain rfl := GenerationRow.At.eq hd ho ho' hat hat'
      omega
  · intro ⟨g, hg, hat, hsel⟩
    obtain ⟨hdev, hr, ⟨y, hy, hyat, hyr⟩, hholds, -⟩ := id hsel
    obtain rfl : y = x := hd.heads.eq hy hx (hyat.1.trans hat.1.symm)
    obtain ⟨hacc, hdv⟩ := Prod.mk.inj hat.1
    refine ⟨hdv.trans hdev, hyr, ⟨g.retire, mem_update.mpr ⟨g, hg, .inl ⟨hsel, rfl⟩⟩, hat, rfl, ?_⟩, hacc ▸ hholds⟩
    rw [← hr]
    rfl

/-- A revocation retires a current generation and moves its head by one revision. -/
theorem revoke_eq (hd : Registered d) (device secret : String) (expected : Nat) :
    revokeHead device secret expected (revokeGeneration device secret expected d) =
      { d with
        generations := update (d.revocable device secret expected) GenerationRow.retire d.generations
        heads := update (d.revoking device secret expected) (fun x => { x with revision := x.revision + 1 }) d.heads } := by
  unfold revokeHead
  have hsel := fun x hx => revokeHead_selects hd device secret expected (x := x) hx
  exact congrArg (fun heads => { revokeGeneration device secret expected d with heads }) (update_congr hsel)

theorem revoke_registered (hd : Registered d) (device secret : String) (expected : Nat) :
    Registered (revokeHead device secret expected (revokeGeneration device secret expected d)) := by
  rw [revoke_eq hd]
  refine hd.map rfl rfl rfl (fun g => ?_) (fun x => ?_) fun x hx g hg hat hr => ?_
  · by_cases hs : d.revocable device secret expected g
    · rw [if_pos hs]
      exact .retire g
    · rw [if_neg hs]
      exact .refl g
  · by_cases hs : d.revoking device secret expected x
    · rw [if_pos hs]
      exact ⟨rfl, rfl⟩
    · rw [if_neg hs]
      exact ⟨rfl, rfl⟩
  · by_cases hs : d.revocable device secret expected g
    · have hx' : d.revoking device secret expected x := ⟨g, hg, hat, hs⟩
      rw [if_pos hs, if_pos hx']
      exact congrArg (· + 1) hr
    · have hx' : ¬d.revoking device secret expected x := by
        intro ⟨o, ho, hat', hs'⟩
        exact hs (GenerationRow.At.eq hd hg ho hat hat' ▸ hs')
      rw [if_neg hs, if_neg hx']
      exact hr

/-- Every transaction keeps the registry. -/
theorem Tx.registered (hd : Registered d) {tx : Tx} (h : tx.run d = some d') : Registered d' := by
  cases tx with
  | openAccount secret accountId =>
    obtain ⟨hh, hg, he⟩ := openAccount_eq h
    exact hd.same hh hg he
  | challenge p => exact Challenge.registered hd h
  | complete p =>
    cases hr : d.ready p.enrollmentId p.secretHash with
    | none =>
      obtain rfl := Completion.run_none hd hr h
      exact hd
    | some x => exact (Completion.run_some hd hr h).registered hd
  | advance scope secret cas => exact Cas.registered hd h
  | revoke device secret expected =>
    obtain rfl := Option.some.inj h
    exact revoke_registered hd device secret expected

end Mikaki.Messaging
