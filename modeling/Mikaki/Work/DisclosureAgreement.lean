import Mikaki.Work.DisclosureSound

/-!
# The two constructions of a disclosure agree

The selections behind a registered disclosure, with the contents their replies
were verified on, make up a Git disclosure input. Building from that input and
binding the registered sources gives the same data under the same digest.
-/

namespace Mikaki

open Checks

/-! ## Verified selections and their contents -/

section
variable [Hashes]

/-- A selection with the request and the reply it was verified on. -/
structure SelectionReading where
  selection : VerifiedSourceSelection
  request : SourceReadInput
  body : String
  reply : List (SourceFile × String)
  replied : selection.source.verifyReply request body = .ok reply
  verified : selection.source.verifySelection request body = .ok selection

end

theorem RegisteredSource.file_bytes (s : RegisteredSource) : ∀ f ∈ s.data.files, f.bytes ≤ 16384 := by
  have h := s.valid
  simp only [SourceInput.validate, check_bind_eq_ok, checkAll_eq_ok] at h
  obtain ⟨-, -, -, -, -, hf, -⟩ := h
  intro f hm
  have hc := hf f hm
  simp only [SourceFile.check, check_bind_eq_ok, denyIf_eq_ok, not_or, Nat.not_lt, gt_iff_lt] at hc
  exact hc.2.2.1

theorem RegisteredSource.commit_ok (s : RegisteredSource) :
    gitOid s.facts.commit = .ok s.facts.commit ∧ s.facts.commit.utf8ByteSize = 40 := by
  have h := s.valid
  simp only [SourceInput.validate, bind_eq_ok, exists_unit, sha1Name, gitOid_ok, denyIf_eq_ok, Decidable.not_not,
    ne_eq] at h
  obtain ⟨-, -, -, ⟨_, ⟨hc, rfl⟩, hn⟩, -⟩ := h
  exact ⟨gitOid_ok.mpr ⟨hc, rfl⟩, hn⟩

theorem RegisteredSource.selected_ok {s : RegisteredSource} {i : SourceReadInput} {files : List SourceFile}
    (h : s.selected i = .ok files) : storedNumber i.accessRevision false = .ok () ∧ ∀ f ∈ files, f ∈ s.data.files := by
  simp only [selected, bind_eq_ok, exists_unit, pure_eq_ok] at h
  obtain ⟨-, ha, _, hc, -, rfl⟩ := h
  refine ⟨ha, fun f hf => ?_⟩
  obtain ⟨p, -, hp⟩ := collect_mem hc f hf
  split at hp
  · rename_i g hg
    cases hp
    exact List.mem_of_find?_eq_some hg
  · cases hp

namespace SelectionReading

variable [Hashes]

/-- What is known of one verified file and its content. -/
structure Received (file : SourceFile) (content : String) : Prop where
  bytes : content.utf8ByteSize = file.bytes
  sha256 : sha256 (Text.bytes content) = file.sha256
  text : notText content = false

theorem reply_ok {s : RegisteredSource} {i : SourceReadInput} {body : String} {reply : List (SourceFile × String)}
    (h : s.verifyReply i body = .ok reply) :
    s.selected i = .ok (reply.map Prod.fst) ∧ ∀ p ∈ reply, Received p.1 p.2 := by
  simp only [RegisteredSource.verifyReply, bind_eq_ok, exists_unit] at h
  obtain ⟨files, hs, -, h⟩ := h
  split at h
  · cases h
  · rename_i r _
    simp only [check_bind_eq_ok, denyIf_eq_ok, not_or, Decidable.not_not, ne_eq] at h
    obtain ⟨⟨-, -, -, -, -, hl⟩, hc⟩ := h
    refine ⟨?_, fun p hp => ?_⟩
    · rw [collect_zip_fst hl (fun a c p h => ?_) hc]
      · exact hs
      · simp only [check_bind_eq_ok, pure_eq_ok] at h
        rw [← h.2]
    · obtain ⟨⟨expected, received⟩, -, h⟩ := collect_mem hc p hp
      simp only [RegisteredSource.checkReceived, check_bind_eq_ok, pure_eq_ok, denyIf_eq_ok, not_or, Decidable.not_not,
        ne_eq, Bool.not_eq_true] at h
      obtain ⟨⟨-, -, hb, hs, ht⟩, rfl⟩ := h
      exact ⟨hb, hs, ht⟩

theorem selected (r : SelectionReading) : r.selection.files = r.reply.map Prod.fst ∧
    r.selection.accessRevision = r.request.accessRevision := by
  have h := r.verified
  simp only [RegisteredSource.verifySelection, bind_eq_ok, exists_unit, pure_eq_ok] at h
  obtain ⟨_, -, -, files, hs, he⟩ := h
  rw [(reply_ok r.replied).1, Except.ok.injEq] at hs
  rw [hs, ← he]
  exact ⟨rfl, rfl⟩

/-- The selection as the Git adapter would present it. -/
def gitContext (r : SelectionReading) : GitContextInput :=
  { repository := r.selection.source.id, commit := r.selection.source.facts.commit
    tree := r.selection.source.facts.tree
    files := r.reply.map fun (f, content) => { path := f.path, blob := f.blob, mode := f.mode, content } }

theorem gitFile_select {r : SelectionReading} {p : SourceFile × String} (h : p ∈ r.reply) (index : Nat) :
    ResolvedDisclosure.gitFile index { path := p.1.path, blob := p.1.blob, mode := p.1.mode, content := p.2 } =
      .ok (ResolvedDisclosure.selectFile index p.1) := by
  obtain ⟨hs, hc⟩ := reply_ok r.replied
  obtain ⟨hb, hd, ht⟩ := hc p h
  have hm := (RegisteredSource.selected_ok hs).2 p.1 (List.mem_map_of_mem h)
  have hn := r.selection.source.file_bytes p.1 hm
  have hok : denyIf (p.1.bytes > 16384 ∨ notText p.2 = true) Denied.invalidInput = .ok () :=
    denyIf_eq_ok.mpr (not_or.mpr ⟨Nat.not_lt.mpr hn, by rw [ht]; exact Bool.false_ne_true⟩)
  simp only [ResolvedDisclosure.gitFile, hb, hd, hok, ok_bind]
  rfl

theorem gitContext_select {r : SelectionReading} {id : Id} (h : Id.parse r.selection.source.id = .ok id) (index : Nat) :
    ResolvedDisclosure.gitContext index r.gitContext =
      .ok { repository := id, commit := r.selection.source.facts.commit, tree := r.selection.source.facts.tree
            files := r.selection.files.map (ResolvedDisclosure.selectFile index) } := by
  have hf : collect r.gitContext.files (ResolvedDisclosure.gitFile index) =
      .ok (r.reply.map fun p => ResolvedDisclosure.selectFile index p.1) := by
    rw [gitContext, collect_map]
    exact collect_eq_map _ fun p hp => gitFile_select hp index
  rw [ResolvedDisclosure.gitContext, hf, ok_bind, r.selected.1, List.map_map]
  simp only [gitContext, h, ok_bind]
  rfl

theorem bindContext_select {r : SelectionReading} {id : Id} (h : Id.parse r.selection.source.id = .ok id)
    (hr : contextRole r.selection.source.facts.role = true) (index : Nat) :
    ResolvedDisclosure.bindContext
      { repository := id, commit := r.selection.source.facts.commit, tree := r.selection.source.facts.tree
        files := r.selection.files.map (ResolvedDisclosure.selectFile index) } r.selection.source.facts = .ok () := by
  have hid : r.selection.source.facts.sourceId = id.text := (Id.parse_ok.mp h).symm
  refine denyIf_eq_ok.mpr ?_
  simp only [hid, hr, ne_eq, not_true_eq_false, Bool.true_eq_false, false_or, List.any_eq_true, List.mem_map,
    Bool.not_eq_true', List.any_eq_false]
  rintro ⟨_, ⟨f, hf, rfl⟩, h⟩
  rw [r.selected.1] at hf
  have hm := (RegisteredSource.selected_ok (reply_ok r.replied).1).2 f hf
  exact h f hm (by simp [ResolvedDisclosure.selectFile])

end SelectionReading

namespace ResolvedDisclosure

variable [Hashes]

/-! ## Contexts, one by one -/

/-- A selection and the access revision it was read under. -/
def boundSource (r : SelectionReading) : RegisteredSource × Nat := (r.selection.source, r.selection.accessRevision)

theorem contexts_agree {rs : List SelectionReading} {index : Nat} {names : List String} {contexts : List Context}
    {sources : List SourceBinding} (h : selectContexts index names (rs.map (·.selection)) = .ok (contexts, sources)) :
    collect ((rs.map (·.gitContext)).zipIdx index) (fun (c, i) => gitContext i c) = .ok contexts ∧
      ∀ data : Data, (∀ n, data.contexts[index + n]? = contexts[n]?) →
        bindSources data (index + 1) names (rs.map boundSource) = .ok sources := by
  induction rs generalizing index names contexts sources with
  | nil => cases h; exact ⟨rfl, fun _ _ => rfl⟩
  | cons r rs ih =>
    simp only [List.map_cons, selectContexts, bind_eq_ok, exists_unit, denyIf_eq_ok, not_or, Bool.not_eq_false,
      pure_eq_ok] at h
    obtain ⟨⟨hrole, hname⟩, id, hid, ⟨cs, ss⟩, hrest, he⟩ := h
    cases he
    obtain ⟨hg, hb⟩ := ih hrest
    refine ⟨?_, fun data hd => ?_⟩
    · rw [List.map_cons, List.zipIdx_cons, collect]
      show (gitContext index r.gitContext >>= _) = _
      rw [r.gitContext_select hid, ok_bind, hg]
      rfl
    · have h0 := hd 0
      have ha := (RegisteredSource.selected_ok (SelectionReading.reply_ok r.replied).1).1
      rw [← r.selected.2] at ha
      have hn : denyIf (r.selection.source.facts.repoName ∈ names) Denied.bindingMismatch = .ok () :=
        denyIf_eq_ok.mpr hname
      simp only [Nat.add_zero, List.getElem?_cons_zero] at h0
      simp only [List.map_cons, bindSources, boundSource, ha, hn, h0, ok_bind, r.bindContext_select hid hrole, hid]
      rw [hb data fun n => ?_]
      · rfl
      · have := hd (n + 1)
        rw [← Nat.add_assoc, Nat.add_right_comm] at this
        exact this

/-- The files of the snapshot, each with its place and its blob. -/
def selectedFiles (contexts : List VerifiedSourceSelection) (index : Nat) : List (String × String) :=
  (contexts.zipIdx index).flatMap fun (c, i) => c.files.map fun f => (snapshotPath i f.path, f.blob)

omit [Hashes] in
theorem selectContexts_files {cs : List VerifiedSourceSelection} {index : Nat} {names : List String}
    {contexts : List Context} {sources : List SourceBinding}
    (h : selectContexts index names cs = .ok (contexts, sources)) :
    (contexts.flatMap (·.files)).map (fun f => (f.snapshotPath, f.blob)) = selectedFiles cs index := by
  induction cs generalizing index names contexts sources with
  | nil => cases h; rfl
  | cons c cs ih =>
    simp only [selectContexts, bind_eq_ok, exists_unit, pure_eq_ok] at h
    obtain ⟨-, _, -, ⟨rest, ss⟩, hrest, he⟩ := h
    cases he
    rw [List.flatMap_cons, List.map_append, ih hrest, List.map_map]
    rfl

omit [Hashes] in
theorem selectContexts_lengths {cs : List VerifiedSourceSelection} {index : Nat} {names : List String}
    {contexts : List Context} {sources : List SourceBinding}
    (h : selectContexts index names cs = .ok (contexts, sources)) :
    contexts.map (·.files.length) = cs.map (·.files.length) := by
  induction cs generalizing index names contexts sources with
  | nil => cases h; rfl
  | cons c cs ih =>
    simp only [selectContexts, bind_eq_ok, exists_unit, pure_eq_ok] at h
    obtain ⟨-, _, -, ⟨rest, ss⟩, hrest, he⟩ := h
    cases he
    rw [List.map_cons, List.map_cons, ih hrest, List.length_map]

/-! ## The whole disclosure -/

/-- A history of the registered code: the commits its count and its digest were taken of. -/
structure CodeHistory (source : RegisteredSource) where
  facts : SourceCode
  commits : List String
  registered : source.facts.code = some facts
  count : facts.commits = commits.length
  digest : facts.historyDigest = sha256 (historyBytes commits)
  head : source.facts.commit ∈ commits
  ascending : ascending commits = true
  names : ∀ c ∈ commits, oid c 40 = .ok ()

/-- The Git input of the same code facts and contents, and of one parentless snapshot. -/
def gitInput (input : RegisteredDisclosureInput) (history : CodeHistory input.code) (readings : List SelectionReading)
    (snapshot : String × String) : GitDisclosureInput :=
  { code := { repository := input.code.id, commit := input.code.facts.commit, tree := input.code.facts.tree
              commits := history.commits, objects := history.facts.objects, objectBytes := history.facts.objectBytes
              headFiles := history.facts.headFiles }
    contexts := readings.map (·.gitContext)
    snapshot := { repository := input.snapshotRepository, commit := snapshot.1, tree := snapshot.2, parents := [] } }

/-- The same sources under the same access revisions, the code first. -/
def boundSources (input : RegisteredDisclosureInput) (readings : List SelectionReading) :
    List (RegisteredSource × Nat) :=
  (input.code, input.codeAccessRevision) :: readings.map boundSource

omit [Hashes] in
theorem unbound_validate {d : Data} (h : d.validate = .ok ()) : d.unbound.validate = .ok () := by
  rw [Data.validate, check_bind_eq_ok] at h ⊢
  exact ⟨if_pos ⟨rfl, rfl, rfl⟩, h.2⟩

omit [Hashes] in
theorem unbound_width (d : Data) : Json.width d.unbound.toJson.chars ≤ Json.width d.toJson.chars := by
  refine Json.width_obj_sublist ?_ (by simp)
  exact ((((List.nil_sublist _).append (List.Sublist.refl _)).append (List.nil_sublist _)).append
    (List.Sublist.refl _)).append (List.nil_sublist _)

omit [Hashes] in
theorem record_unbound {d : Data} {digest digest' : Digest} {text : String}
    (h : authorityRecord ⟨d, digest⟩ = .ok text) : ∃ text', authorityRecord ⟨d.unbound, digest'⟩ = .ok text' := by
  refine Records.encode_mono h ?_
  have := unbound_width d
  simp only [toJson, Json.width_obj_cons, List.map_cons, List.map_nil, Json.valuesWidth, List.sum_cons, List.sum_nil,
    Digest.width]
  omega

omit [Hashes] in
theorem record_of_width {d : ResolvedDisclosure} (h : Json.width d.data.toJson.chars ≤ 32000) :
    ∃ text, d.authorityRecord = .ok text := by
  have hk : Json.keysWidth ["data", "digest"] ≤ 20 := by decide
  have hw : Json.width d.toJson.chars ≤ 32100 := by
    refine Nat.le_trans (Json.width_obj _) ?_
    simp only [List.map_cons, List.map_nil, Json.valuesWidth, List.sum_cons, List.sum_nil, Digest.width]
    omega
  have hs := Records.envelope_size "disclosure" d.toJson (show _ ≤ 20 by decide) hw
  exact ⟨_, Records.encode_ok.mpr ⟨by simp only [maxRecordBytes]; omega, rfl⟩⟩

theorem bindCode_history {source : RegisteredSource} (history : CodeHistory source) {c : Code}
    (h : c.repository.text = source.id ∧ source.facts.role = "code" ∧ c.commit = source.facts.commit ∧
      c.tree = source.facts.tree ∧ c.commits = history.facts.commits ∧ c.historyDigest = history.facts.historyDigest ∧
      c.objects = history.facts.objects ∧ c.objectBytes = history.facts.objectBytes ∧
      c.headFiles = history.facts.headFiles) : bindCode c source.facts = .ok () := by
  obtain ⟨h₁, h₂, h₃, h₄, h₅, h₆, h₇, h₈, h₉⟩ := h
  have hid : source.facts.sourceId = c.repository.text := h₁.symm
  simp only [bindCode, history.registered]
  refine denyIf_eq_ok.mpr ?_
  simp [hid, h₂, h₃, h₄, h₅, h₆, h₇, h₈, h₉]

/-- Binding sources adds them, the projection and the second format to the facts. -/
theorem bind_unbound {d : Data} {sources : List (RegisteredSource × Nat)} {projection : Digest} {text : String}
    (hv : d.formatVersion = 2) (hp : d.policyProjection = some projection)
    (hb : bindSources d.unbound 0 [] sources = .ok d.registeredSources) (hl : sources.length = 1 + d.contexts.length)
    (hvalid : d.validate = .ok ()) (hrecord : authorityRecord ⟨d, d.digest⟩ = .ok text) :
    bindRegisteredSources ⟨d.unbound, d.unbound.digest⟩ sources projection = .ok ⟨d, d.digest⟩ := by
  have hd : { d.unbound with registeredSources := d.unbound.registeredSources ++ d.registeredSources
                             formatVersion := 2, policyProjection := some projection } = d := by
    rw [← hv, ← hp]; rfl
  simp only [bindRegisteredSources, bind_eq_ok, exists_unit, denyIf_eq_ok, pure_eq_ok, not_or, ne_eq, Decidable.not_not]
  exact ⟨⟨rfl, hl⟩, _, hb, by rw [hd]; exact ⟨hvalid, text, hrecord, rfl⟩⟩

/-- What the Git adapter would present is accepted, and binding it gives the registered disclosure. -/
theorem registered_agrees {input : RegisteredDisclosureInput} {session : OwnerSession} {environment : Environment}
    {d : ResolvedDisclosure} (h : fromRegisteredSelection input session environment = .ok d)
    (history : CodeHistory input.code) (readings : List SelectionReading)
    (hr : readings.map (·.selection) = input.contexts) {snapshot : String × String}
    (hs : Snapshot.snapshot (selectedFiles input.contexts 0) = .ok snapshot) :
    fromVerifiedGit (gitInput input history readings snapshot) input.recipient input.workload session environment
        input.expiresAt = .ok ⟨d.data.unbound, d.data.unbound.digest⟩ ∧
      bindRegisteredSources ⟨d.data.unbound, d.data.unbound.digest⟩ (boundSources input readings)
        input.policyProjection = .ok d := by
  simp only [fromRegisteredSelection, history.registered, bind_eq_ok, exists_unit, denyIf_eq_ok, pure_eq_ok, not_or,
    Nat.not_lt, gt_iff_lt, Decidable.not_not, ne_eq] at h
  obtain ⟨hsession, hdeadline, ⟨hexpires, hfour⟩, hrole, haccess, codeId, hcode, ⟨contexts, sources⟩, hselect,
    ⟨commit, tree⟩, hsnap, recipient, hrecipient, workload, hworkload, snapshotId, hsnapId, hvalid, text, hrecord, rfl⟩ := h
  rw [← hr] at hselect
  obtain ⟨hcollect, hbind⟩ := contexts_agree hselect
  rw [hr] at hselect
  rw [selectContexts_files hselect, hs, Except.ok.injEq] at hsnap
  cases hsnap
  have hlengths := selectContexts_lengths hselect
  obtain ⟨hcommit, hforty⟩ := input.code.commit_ok
  have hcount : contexts.length = readings.length := by
    have := congrArg List.length hlengths
    rwa [List.length_map, List.length_map, ← hr, List.length_map] at this
  have hreadings : readings.length ≤ 4 := by rw [← hr, List.length_map] at hfour; exact hfour
  constructor
  · have hfacts := hvalid
    simp only [Data.validate, Data.checkFacts, bind_eq_ok, exists_unit, denyIf_eq_ok, not_or, Nat.not_lt, gt_iff_lt,
      hcommit, Except.ok.injEq, exists_eq_left'] at hfacts
    obtain ⟨-, -, -, -, htree, -, -, ⟨hpos, hmax, -⟩, -, hfiles, -⟩ := hfacts
    simp only [fromVerifiedGit, bind_eq_ok, exists_unit, denyIf_eq_ok, pure_eq_ok, not_or, Nat.not_lt, gt_iff_lt,
      ne_eq, Decidable.not_not, Bool.not_eq_false]
    refine ⟨hsession, hdeadline, input.code.facts.commit, hcommit, htree, ⟨?_, ?_, history.head, history.ascending⟩, ?_,
      ⟨rfl, ?_, ?_⟩, contexts, hcollect, recipient, hrecipient, workload, hworkload, codeId, hcode, snapshotId, hsnapId,
      ?_⟩
    · exact fun h => absurd history.head (by rw [show history.commits = [] from h]; exact List.not_mem_nil)
    · exact (history.count ▸ hmax : history.commits.length ≤ 4096)
    · exact checkAll_eq_ok.mpr fun c hc => by rw [hforty]; exact history.names c hc
    · simpa [gitInput] using hreadings
    · have hsum : (gitInput input history readings (commit, tree)).contexts.map (·.files.length) =
          contexts.map (·.files.length) := by
        rw [hlengths, ← hr, gitInput, List.map_map, List.map_map]
        exact List.map_congr_left fun r _ => by
          simp [SelectionReading.gitContext, r.selected.1]
      rw [hsum]; exact hfiles
    · have hc : (gitInput input history readings (commit, tree)).code.commits.length = history.facts.commits :=
        history.count.symm
      have hd : sha256 (historyBytes (gitInput input history readings (commit, tree)).code.commits) =
        history.facts.historyDigest := history.digest.symm
      rw [hc, hd]
      obtain ⟨text, hrecord⟩ := record_unbound hrecord
      exact ⟨unbound_validate hvalid, text, hrecord, rfl⟩
  · refine bind_unbound rfl rfl ?_ ?_ hvalid hrecord
    · rw [boundSources, bindSources, haccess, ok_bind]
      have hn : denyIf (input.code.facts.repoName ∈ []) Denied.bindingMismatch = .ok () :=
        denyIf_eq_ok.mpr List.not_mem_nil
      have hb := bindCode_history history (c := ⟨codeId, input.code.facts.commit, input.code.facts.tree,
        history.facts.commits, history.facts.historyDigest, history.facts.objects, history.facts.objectBytes,
        history.facts.headFiles⟩) ⟨Id.parse_ok.mp hcode, hrole, rfl, rfl, rfl, rfl, rfl, rfl, rfl⟩
      simp only [hn, Data.unbound, hb, ok_bind, hcode, List.nil_append]
      rw [hbind _ fun n => by rw [Nat.zero_add], hrole]
      rfl
    · rw [boundSources, List.length_cons, List.length_map, hcount, Nat.add_comm]

/-! ## Expiry -/

/-- The registered construction compares the expiry with the session's, the Git construction does not. -/
theorem fromRegisteredSelection_expires {input : RegisteredDisclosureInput} {session : OwnerSession}
    {environment : Environment} {d : ResolvedDisclosure}
    (h : fromRegisteredSelection input session environment = .ok d) : d.data.expiresAt ≤ session.expiresAt := by
  simp only [fromRegisteredSelection, check_bind_eq_ok, denyIf_eq_ok, not_or, Nat.not_lt, gt_iff_lt] at h
  obtain ⟨-, -, ⟨hx, -⟩, h⟩ := h
  split at h
  · cases h
  · simp only [bind_eq_ok, exists_unit, pure_eq_ok] at h
    obtain ⟨-, -, _, -, _, -, _, -, _, -, _, -, _, -, -, _, -, rfl⟩ := h
    exact hx

/-- Both constructions build one disclosure, and a disclosure built from Git facts ends with the session exactly
where the expiry it was asked for does. -/
theorem constructions_agree :
    (∀ (input : RegisteredDisclosureInput) (session : OwnerSession) (environment : Environment) (d : ResolvedDisclosure)
        (history : CodeHistory input.code) (readings : List SelectionReading) (snapshot : String × String),
      fromRegisteredSelection input session environment = .ok d → readings.map (·.selection) = input.contexts →
      Snapshot.snapshot (selectedFiles input.contexts 0) = .ok snapshot →
      (∃ g, fromVerifiedGit (gitInput input history readings snapshot) input.recipient input.workload session
          environment input.expiresAt = .ok g ∧
        g.bindRegisteredSources (boundSources input readings) input.policyProjection = .ok d) ∧
      d.data.expiresAt ≤ session.expiresAt) ∧
    (∀ (input : GitDisclosureInput) (recipient workload : String) (session : OwnerSession) (environment : Environment)
        (expiresAt : Nat) (sources : List (RegisteredSource × Nat)) (projection : Digest) (g d : ResolvedDisclosure),
      fromVerifiedGit input recipient workload session environment expiresAt = .ok g →
      g.bindRegisteredSources sources projection = .ok d →
      (d.data.expiresAt ≤ session.expiresAt ↔ expiresAt ≤ session.expiresAt)) := by
  constructor
  · intro input session environment d history readings snapshot h hr hs
    obtain ⟨hg, hb⟩ := registered_agrees h history readings hr hs
    exact ⟨⟨_, hg, hb⟩, fromRegisteredSelection_expires h⟩
  · intro input recipient workload session environment expiresAt sources projection g d hg hb
    rw [(bindRegisteredSources_valid hb).2, (fromVerifiedGit_valid hg).2]

end ResolvedDisclosure

/-! ## One registered selection, its Git input and a session that ends first -/

namespace Sample

def content : String := "Use clear words.\n"

def file : SourceFile :=
  { path := "writing.md", blob := "2f747e14a7c6582b120b84b2b17b6cea158fb1d0", mode := "100644", bytes := 17
    sha256 := sha256 (Text.bytes content) }

def codeFacts : SourceCode :=
  { commits := 1, historyDigest := sha256 (ResolvedDisclosure.historyBytes [oid 'a']), objects := 3, objectBytes := 512
    headFiles := 1 }

def codeSource : RegisteredSource :=
  ⟨{ sourceId := "code-1", sourceRevision := 1, role := "code", label := "Code", repoName := "code-repo"
     commit := oid 'a', tree := oid 'b', files := [], code := some codeFacts }, by decide +kernel⟩

def contextSource : RegisteredSource :=
  ⟨{ sourceId := "context-1", sourceRevision := 1, role := "personal", label := "Context", repoName := "personal-repo"
     commit := oid 'c', tree := oid 'd', files := [file], code := none }, by decide +kernel⟩

def readRequest : SourceReadInput :=
  { formatVersion := 1, sourceId := "context-1", sourceRevision := 1, accessRevision := 2, paths := ["writing.md"] }

/-- The source service's reply. -/
def replyJson : Json.Value :=
  .obj [("format_version", .num 1), ("source_id", .str "context-1"), ("source_revision", .num 1),
    ("commit", .str (oid 'c')), ("tree", .str (oid 'd')), ("files", .arr [.obj [("path", .str "writing.md"),
      ("blob", .str file.blob), ("content", .str content)]])]

def reply : Reply :=
  { formatVersion := 1, sourceId := "context-1", sourceRevision := 1, commit := oid 'c', tree := oid 'd'
    files := [{ path := "writing.md", blob := file.blob, content }] }

theorem reply_read : Reply.read replyJson = some reply := by rfl

theorem reply_size : ¬replyJson.render.utf8ByteSize > 393216 := by
  rw [Json.size_render]
  decide +kernel

def selection : VerifiedSourceSelection := { source := contextSource, accessRevision := 2, files := [file] }

theorem files_selected : contextSource.selected readRequest = .ok [file] := by decide +kernel

theorem reply_verified : contextSource.verifyReply readRequest replyJson.render = .ok [(file, content)] := by
  rw [RegisteredSource.verifyReply, files_selected, ok_bind, denyIf, if_neg reply_size, ok_bind, Json.parse_render,
    Option.bind_some, reply_read]
  decide +kernel

theorem selection_verified : contextSource.verifySelection readRequest replyJson.render = .ok selection := by
  have hb : checkAll [(file, content)] (fun (file, content) =>
      denyIf (file.blob ≠ hex (Snapshot.object "blob" (Text.bytes content))) Denied.bindingMismatch) = .ok () := by
    decide +kernel
  rw [RegisteredSource.verifySelection, reply_verified, ok_bind, hb, ok_bind, files_selected, ok_bind]
  rfl

def reading : SelectionReading :=
  { selection, request := readRequest, body := replyJson.render, reply := [(file, content)], replied := reply_verified
    verified := selection_verified }

def history : ResolvedDisclosure.CodeHistory codeSource :=
  { facts := codeFacts, commits := [oid 'a'], registered := rfl, count := rfl, digest := rfl, head := by decide
    ascending := by decide, names := by decide +kernel }

def registeredInput : RegisteredDisclosureInput :=
  { code := codeSource, codeAccessRevision := 4, contexts := [selection], snapshotRepository := "snapshot-1"
    recipient := "client-1", workload := "workload-1", expiresAt := 4000, policyProjection := hash 7 }

/-- What Git names the snapshot of that one file. -/
def names : String × String :=
  ("80c1112eea1d3952d3b0ca1c932194c9cdd4009e", "1376a40c1a78c057f1fc5608fa293c7cd06c28d4")

theorem snapshot_taken : Snapshot.snapshot (ResolvedDisclosure.selectedFiles registeredInput.contexts 0) = .ok names := by
  decide +kernel

def disclosureData : Data :=
  { formatVersion := 2, owner, ownerEpoch := 3, policyRevision := 7, policyProjection := some (hash 7)
    recipient := client, workload, expiresAt := 4000
    code := { repository := code, commit := oid 'a', tree := oid 'b', commits := 1
              historyDigest := codeFacts.historyDigest, objects := 3, objectBytes := 512, headFiles := 1 }
    contexts := [{ repository := ⟨"context-1", by decide⟩, commit := oid 'c', tree := oid 'd'
                   files := [ResolvedDisclosure.selectFile 0 file] }]
    snapshot := { repository := snapshotId, commit := names.1, tree := names.2 }
    selectedBytes := 17
    registeredSources :=
      [{ sourceId := code, sourceRevision := 1, accessRevision := 4, role := "code" },
        { sourceId := ⟨"context-1", by decide⟩, sourceRevision := 1, accessRevision := 2, role := "personal" }] }

def disclosure : ResolvedDisclosure := { data := disclosureData, digest := disclosureData.digest }

theorem data_width : Json.width disclosureData.toJson.chars ≤ 32000 := by decide +kernel

theorem disclosure_recorded : ∃ text, disclosure.authorityRecord = .ok text :=
  ResolvedDisclosure.record_of_width data_width

theorem data_validated : disclosureData.validate = .ok () := by decide +kernel

theorem contexts_selected : ResolvedDisclosure.selectContexts 0 ["code-repo"] [selection] =
    .ok (disclosureData.contexts, disclosureData.registeredSources.tail) := rfl

theorem disclosure_registered :
    ResolvedDisclosure.fromRegisteredSelection registeredInput session environment = .ok disclosure := by
  obtain ⟨text, hr⟩ := disclosure_recorded
  have hcode : registeredInput.code.facts.code = some codeFacts := rfl
  have hselect : ResolvedDisclosure.selectContexts 0 [registeredInput.code.facts.repoName] registeredInput.contexts =
    .ok (disclosureData.contexts, disclosureData.registeredSources.tail) := contexts_selected
  simp only [ResolvedDisclosure.fromRegisteredSelection, hcode, bind_eq_ok, exists_unit, denyIf_eq_ok, pure_eq_ok]
  exact ⟨session_checked, by decide, by decide, by decide, by decide, _, rfl, _, hselect, names, snapshot_taken, _, rfl,
    _, rfl, _, rfl, data_validated, text, hr, rfl⟩

/-- A session that ends before the disclosure would. -/
def shortSession : OwnerSession := { id := owner, epoch := 3, expiresAt := 3000, stored := by decide }

def gitInput : GitDisclosureInput := ResolvedDisclosure.gitInput registeredInput history [reading] names

end Sample

namespace ResolvedDisclosure

/-- The sample selection under both constructions, in a session that outlasts it. -/
theorem constructions_agree_sample :
    ∃ g, fromVerifiedGit Sample.gitInput "client-1" "workload-1" Sample.session Sample.environment 4000 = .ok g ∧
      g.bindRegisteredSources [(Sample.codeSource, 4), (Sample.contextSource, 2)] (Sample.hash 7) =
        .ok Sample.disclosure ∧
      Sample.disclosure.data.expiresAt ≤ Sample.session.expiresAt ∧ 4000 ≤ Sample.session.expiresAt := by
  obtain ⟨⟨g, hg, hb⟩, hx⟩ := constructions_agree.1 Sample.registeredInput Sample.session Sample.environment
    Sample.disclosure Sample.history [Sample.reading] Sample.names Sample.disclosure_registered rfl Sample.snapshot_taken
  exact ⟨g, hg, hb, hx, (constructions_agree.2 _ _ _ _ _ _ _ _ g _ hg hb).mp hx⟩

/-- The Git construction does not look at the end of the session. -/
theorem fromVerifiedGit_session {i : GitDisclosureInput} {recipient workload : String} {s t : OwnerSession}
    {environment : Environment} {expiresAt : Nat} (hs : s.check environment = .ok ()) (ht : t.check environment = .ok ())
    (hid : s.id = t.id) (he : s.epoch = t.epoch) :
    fromVerifiedGit i recipient workload s environment expiresAt =
      fromVerifiedGit i recipient workload t environment expiresAt := by
  unfold fromVerifiedGit
  rw [hs, ht, hid, he]

/-- A disclosure that ends 1000 seconds after its owner's session. -/
theorem git_outlives_session : ∃ g, fromVerifiedGit Sample.gitInput "client-1" "workload-1" Sample.shortSession
      Sample.environment 4000 = .ok g ∧
    g.bindRegisteredSources [(Sample.codeSource, 4), (Sample.contextSource, 2)] (Sample.hash 7) =
      .ok Sample.disclosure ∧
    ¬Sample.disclosure.data.expiresAt ≤ Sample.shortSession.expiresAt := by
  obtain ⟨hg, hb⟩ := registered_agrees Sample.disclosure_registered Sample.history [Sample.reading] rfl
    Sample.snapshot_taken
  have hshort : Sample.shortSession.check Sample.environment = .ok () := by decide
  refine ⟨_, ?_, hb, by decide⟩
  rw [fromVerifiedGit_session hshort Sample.session_checked rfl rfl]
  exact hg

end ResolvedDisclosure

end Mikaki
