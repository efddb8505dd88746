import Mikaki.Work.RequestSound
import Mikaki.Work.Sources

/-!
# Resolved disclosures

What a workload may read: one code history, up to four selected contexts and
the snapshot built of them. A disclosure is constructed from verified source
selections, or from Git facts that are then bound to registered sources.
-/

namespace Mikaki

open Checks

/-! ## The closed input schema of the Git adapter -/

structure GitCodeInput where
  repository : String
  commit : String
  tree : String
  commits : List String
  objects : Nat
  objectBytes : Nat
  headFiles : Nat

structure GitFileInput where
  path : String
  blob : String
  mode : String
  content : String

structure GitContextInput where
  repository : String
  commit : String
  tree : String
  files : List GitFileInput

structure GitSnapshotInput where
  repository : String
  commit : String
  tree : String
  parents : List String

structure GitDisclosureInput where
  code : GitCodeInput
  contexts : List GitContextInput
  snapshot : GitSnapshotInput

/-! ## Disclosure data -/

structure Code where
  repository : Id
  commit : String
  tree : String
  commits : Nat
  historyDigest : Digest
  objects : Nat
  objectBytes : Nat
  headFiles : Nat
  deriving DecidableEq

structure File where
  path : String
  snapshotPath : String
  blob : String
  mode : String
  bytes : Nat
  sha256 : Digest
  deriving DecidableEq

structure Context where
  repository : Id
  commit : String
  tree : String
  files : List File
  deriving DecidableEq

structure Snapshot where
  repository : Id
  commit : String
  tree : String
  deriving DecidableEq

structure SourceBinding where
  sourceId : Id
  sourceRevision : Nat
  accessRevision : Nat
  role : String
  deriving DecidableEq

structure Data where
  formatVersion : Nat
  owner : Id
  ownerEpoch : Nat
  policyRevision : Nat
  policyProjection : Option Digest
  recipient : Id
  workload : Id
  expiresAt : Nat
  code : Code
  contexts : List Context
  snapshot : Snapshot
  selectedBytes : Nat
  registeredSources : List SourceBinding
  deriving DecidableEq

structure ResolvedDisclosure where
  data : Data
  digest : Digest
  deriving DecidableEq

structure RegisteredDisclosureInput where
  code : RegisteredSource
  codeAccessRevision : Nat
  contexts : List VerifiedSourceSelection
  snapshotRepository : String
  recipient : String
  workload : String
  expiresAt : Nat
  policyProjection : Digest

def oid (value : String) (length : Nat) : Except Denied Unit := do
  let value ← gitOid value
  denyIf (value.utf8ByteSize ≠ length) .invalidInput

/-- `format!("context/{index:02}/{path}")`. -/
def snapshotPath (index : Nat) (path : String) : String :=
  "context/" ++ (if index < 10 then "0" else "") ++ toString index ++ "/" ++ path

/-- Both lists of roles a source can be registered under. -/
def contextRole (role : String) : Bool := role == "personal" || role == "project"

/-! ## Validation and digest -/

namespace Data

/-- The repositories of the code and of the contexts, in order. -/
def sourceIds (self : Data) : List Id := self.code.repository :: self.contexts.map (·.repository)

def checkSource (index : Nat) (source : SourceBinding) (id : Id) : Except Denied Unit := do
  storedNumber source.sourceRevision false
  storedNumber source.accessRevision false
  denyIf (source.sourceId ≠ id ∨ (if index = 0 then source.role ≠ "code" else contextRole source.role = false))
    .invalidInput

def checkFormat (self : Data) : Except Denied Unit :=
  if self.formatVersion = 1 ∧ self.registeredSources = [] ∧ self.policyProjection = none then .ok ()
  else if self.formatVersion = 2 ∧ self.registeredSources.length = 1 + self.contexts.length ∧
      self.policyProjection ≠ none then
    checkAll (self.registeredSources.zip self.sourceIds).zipIdx fun ((source, id), index) => checkSource index source id
  else .error .invalidInput

def checkFile (length index : Nat) (file : File) : Except Denied Unit := do
  Mikaki.path file.path
  Mikaki.oid file.blob length
  denyIf (file.bytes > 16384 ∨ ¬(file.mode = "100644" ∨ file.mode = "100755") ∨
    file.snapshotPath ≠ Mikaki.snapshotPath index file.path) .invalidInput

def checkContext (self : Data) (length : Nat) (context : Context) (index : Nat) : Except Denied Unit := do
  Mikaki.oid context.commit length
  Mikaki.oid context.tree length
  denyIf (context.repository = self.code.repository ∨ context.repository = self.snapshot.repository ∨
    context.files = [] ∨ ascending (context.files.map (·.path)) = false) .invalidInput
  checkAll context.files (checkFile length index)

/-- The checks that both formats share. -/
def checkFacts (self : Data) : Except Denied Unit := do
  storedNumber self.ownerEpoch true
  storedNumber self.policyRevision false
  storedNumber self.expiresAt false
  let commit ← gitOid self.code.commit
  let length := commit.utf8ByteSize
  Mikaki.oid self.code.tree length
  Mikaki.oid self.snapshot.commit length
  Mikaki.oid self.snapshot.tree length
  denyIf (self.code.commits = 0 ∨ self.code.commits > 4096 ∨ self.code.objects < self.code.commits ∨
    self.code.objects > 65536 ∨ self.code.objectBytes > 67108864 ∨ self.code.headFiles > 8192 ∨
    self.code.repository = self.snapshot.repository ∨ self.contexts.length > 4 ∨
    ascending (self.contexts.map (·.repository.text)) = false) .invalidInput
  checkAll self.contexts.zipIdx fun (context, index) => self.checkContext length context index
  let count : Nat := (self.contexts.map (·.files.length)).sum
  let bytes : Nat := ((self.contexts.flatMap (·.files)).map (·.bytes)).sum
  denyIf (count > 32 ∨ bytes > 131072 ∨ bytes ≠ self.selectedBytes) .invalidInput

def validate (self : Data) : Except Denied Unit := do
  self.checkFormat
  self.checkFacts

def framedFile (file : File) : List UInt8 :=
  Hash.text file.path ++ Hash.text file.snapshotPath ++ Hash.text file.blob ++ Hash.text file.mode ++
    Hash.number file.bytes ++ Hash.digest file.sha256

def framedContext (context : Context) : List UInt8 :=
  Hash.text context.repository.text ++ Hash.text context.commit ++ Hash.text context.tree ++
    Framing.countedList framedFile context.files

def framedSource (source : SourceBinding) : List UInt8 :=
  Hash.text source.sourceId.text ++ Hash.number source.sourceRevision ++ Hash.number source.accessRevision ++
    Hash.text source.role

def framedProjection : Option Digest → List UInt8
  | none => []
  | some projection => Hash.digest projection

/-- The part of the preimage that both formats share. -/
def framedFacts (self : Data) : List UInt8 :=
  Hash.text self.owner.text ++ Hash.number self.ownerEpoch ++ Hash.number self.policyRevision ++
    Hash.text self.recipient.text ++ Hash.text self.workload.text ++ Hash.number self.expiresAt ++
    Hash.text self.code.repository.text ++ Hash.text self.code.commit ++ Hash.text self.code.tree ++
    Hash.number self.code.commits ++ Hash.digest self.code.historyDigest ++ Hash.number self.code.objects ++
    Hash.number self.code.objectBytes ++ Hash.number self.code.headFiles ++
    Framing.countedList framedContext self.contexts ++ Hash.text self.snapshot.repository.text ++
    Hash.text self.snapshot.commit ++ Hash.text self.snapshot.tree ++ Hash.number self.selectedBytes

/-- The part of the preimage that the second format adds. -/
def framedSources (self : Data) : List UInt8 :=
  if self.formatVersion = 2 then
    Framing.countedList framedSource self.registeredSources ++ framedProjection self.policyProjection
  else []

/-- What the disclosure digest commits to. -/
def preimage (self : Data) : List UInt8 :=
  Hash.new (if self.formatVersion = 2 then "mikaki.work-disclosure.v2" else "mikaki.work-disclosure.v1") ++
    self.framedFacts ++ self.framedSources

def digest [Hashes] (self : Data) : Digest := sha256 self.preimage

end Data

/-! ## Stored records -/

def Code.toJson (c : Code) : Json.Value :=
  .obj [("repository", .str c.repository.text), ("commit", .str c.commit), ("tree", .str c.tree),
    ("commits", .num c.commits), ("history_digest", .str c.historyDigest.toHex), ("objects", .num c.objects),
    ("object_bytes", .num c.objectBytes), ("head_files", .num c.headFiles)]

def File.toJson (f : File) : Json.Value :=
  .obj [("path", .str f.path), ("snapshot_path", .str f.snapshotPath), ("blob", .str f.blob), ("mode", .str f.mode),
    ("bytes", .num f.bytes), ("sha256", .str f.sha256.toHex)]

def Context.toJson (c : Context) : Json.Value :=
  .obj [("repository", .str c.repository.text), ("commit", .str c.commit), ("tree", .str c.tree),
    ("files", .arr (c.files.map File.toJson))]

def Snapshot.toJson (s : Snapshot) : Json.Value :=
  .obj [("repository", .str s.repository.text), ("commit", .str s.commit), ("tree", .str s.tree)]

def SourceBinding.toJson (s : SourceBinding) : Json.Value :=
  .obj [("source_id", .str s.sourceId.text), ("source_revision", .num s.sourceRevision),
    ("access_revision", .num s.accessRevision), ("role", .str s.role)]

/-- The first format leaves its version, its projection and its sources out. -/
def Data.toJson (d : Data) : Json.Value :=
  .obj ((if d.formatVersion = 1 then [] else [("format_version", .num d.formatVersion)]) ++
    [("owner", .str d.owner.text), ("owner_epoch", .num d.ownerEpoch), ("policy_revision", .num d.policyRevision)] ++
    (match d.policyProjection with | none => [] | some p => [("policy_projection", .str p.toHex)]) ++
    [("recipient", .str d.recipient.text), ("workload", .str d.workload.text), ("expires_at", .num d.expiresAt),
      ("code", d.code.toJson), ("contexts", .arr (d.contexts.map Context.toJson)), ("snapshot", d.snapshot.toJson),
      ("selected_bytes", .num d.selectedBytes)] ++
    (if d.registeredSources = [] then []
      else [("registered_sources", .arr (d.registeredSources.map SourceBinding.toJson))]))

namespace ResolvedDisclosure

def toJson (self : ResolvedDisclosure) : Json.Value :=
  .obj [("data", self.data.toJson), ("digest", .str self.digest.toHex)]

def authorityRecord (self : ResolvedDisclosure) : Except Denied String := Records.encode "disclosure" self.toJson

/-! ## From verified selections -/

/-- One selected file under its place in the snapshot. -/
def selectFile (index : Nat) (f : SourceFile) : File :=
  { path := f.path, snapshotPath := snapshotPath index f.path, blob := f.blob, mode := f.mode, bytes := f.bytes,
    sha256 := f.sha256 }

/-- The contexts from position `index` on; `names` are the repositories seen before. -/
def selectContexts (index : Nat) (names : List String) :
    List VerifiedSourceSelection → Except Denied (List Context × List SourceBinding)
  | [] => .ok ([], [])
  | context :: rest => do
    let s := context.source.facts
    denyIf (contextRole s.role = false ∨ s.repoName ∈ names) .bindingMismatch
    let id ← Id.parse context.source.id
    let (contexts, sources) ← selectContexts (index + 1) (names ++ [s.repoName]) rest
    return ({ repository := id, commit := s.commit, tree := s.tree, files := context.files.map (selectFile index) } ::
        contexts,
      { sourceId := id, sourceRevision := context.source.revision, accessRevision := context.accessRevision,
        role := s.role } :: sources)

section
variable [Hashes]

def fromRegisteredSelection (input : RegisteredDisclosureInput) (session : OwnerSession) (environment : Environment) :
    Except Denied ResolvedDisclosure := do
  session.check environment
  deadline environment.now input.expiresAt maxWorkSeconds
  denyIf (input.expiresAt > session.expiresAt ∨ input.contexts.length > 4) .invalidInput
  let c := input.code.facts
  match c.code with
  | none => .error .bindingMismatch
  | some history =>
    denyIf (c.role ≠ "code") .bindingMismatch
    storedNumber input.codeAccessRevision false
    let codeId ← Id.parse input.code.id
    let (contexts, sources) ← selectContexts 0 [c.repoName] input.contexts
    let files := contexts.flatMap (·.files)
    let (commit, tree) ← Snapshot.snapshot (files.map fun f => (f.snapshotPath, f.blob))
    let recipient ← Id.parse input.recipient
    let workload ← Id.parse input.workload
    let snapshotRepository ← Id.parse input.snapshotRepository
    let data : Data :=
      { formatVersion := 2, owner := session.id, ownerEpoch := session.epoch
        policyRevision := environment.policyRevision, policyProjection := some input.policyProjection, recipient, workload
        expiresAt := input.expiresAt
        code := { repository := codeId, commit := c.commit, tree := c.tree, commits := history.commits
                  historyDigest := history.historyDigest, objects := history.objects
                  objectBytes := history.objectBytes, headFiles := history.headFiles }
        contexts, snapshot := { repository := snapshotRepository, commit, tree }
        selectedBytes := (files.map (·.bytes)).sum
        registeredSources :=
          { sourceId := codeId, sourceRevision := input.code.revision, accessRevision := input.codeAccessRevision
            role := "code" } :: sources }
    data.validate
    let disclosure : ResolvedDisclosure := { data, digest := data.digest }
    let _ ← disclosure.authorityRecord
    return disclosure

/-! ## From verified Git facts -/

def gitFile (index : Nat) (file : GitFileInput) : Except Denied File := do
  let bytes := file.content.utf8ByteSize
  denyIf (bytes > 16384 ∨ notText file.content = true) .invalidInput
  return { path := file.path, snapshotPath := snapshotPath index file.path, blob := file.blob, mode := file.mode, bytes
           sha256 := sha256 (Text.bytes file.content) }

def gitContext (index : Nat) (context : GitContextInput) : Except Denied Context := do
  let files ← collect context.files (gitFile index)
  let repository ← Id.parse context.repository
  return { repository, commit := context.commit, tree := context.tree, files }

/-- Every commit on a line of its own. -/
def historyBytes (commits : List String) : List UInt8 := commits.flatMap fun c => Text.bytes c ++ [10]

def fromVerifiedGit (input : GitDisclosureInput) (recipient workload : String) (session : OwnerSession)
    (environment : Environment) (expiresAt : Nat) : Except Denied ResolvedDisclosure := do
  session.check environment
  deadline environment.now expiresAt maxWorkSeconds
  let code := input.code
  let commit ← gitOid code.commit
  let length := commit.utf8ByteSize
  oid code.tree length
  denyIf (code.commits = [] ∨ code.commits.length > 4096 ∨ code.commit ∉ code.commits ∨ ascending code.commits = false)
    .invalidInput
  checkAll code.commits (oid · length)
  denyIf (input.snapshot.parents ≠ [] ∨ input.contexts.length > 4 ∨
    (input.contexts.map (·.files.length)).sum > 32) .invalidInput
  let contexts ← collect input.contexts.zipIdx fun (context, index) => gitContext index context
  let recipient ← Id.parse recipient
  let workload ← Id.parse workload
  let codeRepository ← Id.parse code.repository
  let snapshotRepository ← Id.parse input.snapshot.repository
  let data : Data :=
    { formatVersion := 1, owner := session.id, ownerEpoch := session.epoch
      policyRevision := environment.policyRevision, policyProjection := none, recipient, workload, expiresAt
      code := { repository := codeRepository, commit := code.commit, tree := code.tree
                commits := code.commits.length, historyDigest := sha256 (historyBytes code.commits)
                objects := code.objects, objectBytes := code.objectBytes, headFiles := code.headFiles }
      contexts
      snapshot := { repository := snapshotRepository, commit := input.snapshot.commit, tree := input.snapshot.tree }
      selectedBytes := ((contexts.flatMap (·.files)).map (·.bytes)).sum, registeredSources := [] }
  let disclosure : ResolvedDisclosure := { data, digest := data.digest }
  data.validate
  let _ ← disclosure.authorityRecord
  return disclosure

/-! ## Binding Git facts to registered sources -/

/-- The code source is the one the Git facts describe. -/
def bindCode (c : Code) (s : SourceInput) : Except Denied Unit :=
  match s.code with
  | none => .error .bindingMismatch
  | some history =>
    denyIf (s.sourceId ≠ c.repository.text ∨ s.role ≠ "code" ∨ s.commit ≠ c.commit ∨ s.tree ≠ c.tree ∨
      history.commits ≠ c.commits ∨ history.historyDigest ≠ c.historyDigest ∨ history.objects ≠ c.objects ∨
      history.objectBytes ≠ c.objectBytes ∨ history.headFiles ≠ c.headFiles) .bindingMismatch

/-- A context source holds every file of its context. -/
def bindContext (c : Context) (s : SourceInput) : Except Denied Unit :=
  denyIf (s.sourceId ≠ c.repository.text ∨ contextRole s.role = false ∨ s.commit ≠ c.commit ∨ s.tree ≠ c.tree ∨
    c.files.any (fun file => !s.files.any fun f => f.path == file.path && f.blob == file.blob && f.mode == file.mode &&
      f.bytes == file.bytes && f.sha256 == file.sha256) = true) .bindingMismatch

/-- The sources from position `index` on; `names` are the repositories seen before. -/
def bindSources (data : Data) (index : Nat) (names : List String) :
    List (RegisteredSource × Nat) → Except Denied (List SourceBinding)
  | [] => .ok []
  | (registered, accessRevision) :: rest => do
    storedNumber accessRevision false
    let s := registered.facts
    denyIf (s.repoName ∈ names) .bindingMismatch
    match index with
    | 0 => bindCode data.code s
    | n + 1 =>
      match data.contexts[n]? with
      | some c => bindContext c s
      -- The source indexes here; the count of sources keeps it in bounds.
      | none => .error .bindingMismatch
    let sourceId ← Id.parse registered.id
    let sources ← bindSources data (index + 1) (names ++ [s.repoName]) rest
    return { sourceId, sourceRevision := registered.revision, accessRevision, role := s.role } :: sources

def bindRegisteredSources (self : ResolvedDisclosure) (sources : List (RegisteredSource × Nat))
    (policyProjection : Digest) : Except Denied ResolvedDisclosure := do
  denyIf (self.data.formatVersion ≠ 1 ∨ sources.length ≠ 1 + self.data.contexts.length) .bindingMismatch
  let bound ← bindSources self.data 0 [] sources
  let data :=
    { self.data with
      registeredSources := self.data.registeredSources ++ bound, formatVersion := 2
      policyProjection := some policyProjection }
  data.validate
  let disclosure : ResolvedDisclosure := { data, digest := data.digest }
  let _ ← disclosure.authorityRecord
  return disclosure

end

/-! ## What a disclosure is checked for -/

def requireRegisteredSources (self : ResolvedDisclosure) : Except Denied Unit :=
  denyIf (self.data.formatVersion ≠ 2) .bindingMismatch

def checkRequestBinding (self : ResolvedDisclosure) (request : WorkRequest) : Except Denied Unit :=
  let i := request.input
  denyIf (request.owner ≠ self.data.owner ∨ request.ownerEpoch ≠ self.data.ownerEpoch ∨
    request.policyRevision ≠ self.data.policyRevision ∨ request.expiresAt > self.data.expiresAt ∨
    i.disclosureDigest ≠ self.digest.toHex ∨ i.codeRepository ≠ self.data.code.repository.text ∨
    i.baseCommit ≠ self.data.code.commit ∨ i.recipient ≠ self.data.recipient.text ∨
    i.workload ≠ self.data.workload.text ∨
    self.data.snapshot.repository.text ∈ [i.taskRepository, i.adoptionRepository]) .bindingMismatch

end ResolvedDisclosure

end Mikaki
