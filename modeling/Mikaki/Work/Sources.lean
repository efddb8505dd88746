import Mikaki.Work.Records
import Mikaki.Work.Snapshot

/-!
# Registered sources and verified selections

A registered source is a verified Git receipt. A selection of its files is
verified against the exact reply of the source service: paths, object names,
sizes and SHA-256 of every content.
-/

namespace Mikaki

open Checks

structure SourceFile where
  path : String
  blob : String
  mode : String
  bytes : Nat
  sha256 : Digest
  deriving DecidableEq

structure SourceCode where
  commits : Nat
  historyDigest : Digest
  objects : Nat
  objectBytes : Nat
  headFiles : Nat
  deriving DecidableEq

structure SourceInput where
  sourceId : String
  sourceRevision : Nat
  role : String
  label : String
  repoName : String
  commit : String
  tree : String
  files : List SourceFile
  code : Option SourceCode
  deriving DecidableEq

/-- `windows(2).all(|w| w[0] < w[1])`; the order of texts is that of their UTF-8 bytes. -/
def ascending (keys : List String) : Bool := (keys.zip keys.tail).all fun w => w.1 < w.2

/-- A Git name of 40 digits. -/
def sha1Name (value : String) : Except Denied Unit := do
  let value ← gitOid value
  denyIf (value.utf8ByteSize ≠ 40) .invalidInput

namespace SourceFile

def check (f : SourceFile) : Except Denied Unit := do
  Mikaki.path f.path
  sha1Name f.blob
  denyIf (f.bytes > 16384 ∨ ¬(f.mode = "100644" ∨ f.mode = "100755")) .invalidInput

def toJson (f : SourceFile) : Json.Value :=
  .obj [("path", .str f.path), ("blob", .str f.blob), ("mode", .str f.mode), ("bytes", .num f.bytes),
    ("sha256", .str f.sha256.toHex)]

end SourceFile

def SourceCode.toJson (c : SourceCode) : Json.Value :=
  .obj [("commits", .num c.commits), ("history_digest", .str c.historyDigest.toHex), ("objects", .num c.objects),
    ("object_bytes", .num c.objectBytes), ("head_files", .num c.headFiles)]

namespace SourceInput

def validate (self : SourceInput) : Except Denied Unit := do
  Id.check self.sourceId
  storedNumber self.sourceRevision false
  denyIf (¬(self.role = "code" ∨ self.role = "personal" ∨ self.role = "project") ∨ self.label.utf8ByteSize = 0 ∨
    self.label.utf8ByteSize > 160 ∨ self.label.toList.any Text.isControl = true ∨ self.repoName.utf8ByteSize = 0 ∨
    self.repoName.utf8ByteSize > 64 ∨
    (Text.bytes self.repoName).all (fun b => Text.isLower b || Text.isDigit b || (Text.bytes "-_").contains b) = false ∨
    (Text.bytes self.repoName).head?.any Text.isAlphanumeric = false ∨ self.files.length > 64 ∨
    ascending (self.files.map (·.path)) = false) .invalidInput
  sha1Name self.commit
  sha1Name self.tree
  checkAll self.files SourceFile.check
  match self.code with
  | some c =>
    denyIf (¬(self.role = "code" ∧ self.files = [] ∧ c.commits > 0 ∧ c.commits ≤ 4096 ∧ c.objects ≥ c.commits ∧
      c.objects ≤ 65536 ∧ c.objectBytes ≤ 67108864 ∧ c.headFiles ≤ 8192)) .invalidInput
  | none => denyIf (¬((self.role = "personal" ∨ self.role = "project") ∧ self.files ≠ [])) .invalidInput

def toJson (self : SourceInput) : Json.Value :=
  .obj [("source_id", .str self.sourceId), ("source_revision", .num self.sourceRevision), ("role", .str self.role),
    ("label", .str self.label), ("repo_name", .str self.repoName), ("commit", .str self.commit),
    ("tree", .str self.tree), ("files", .arr (self.files.map SourceFile.toJson)),
    ("code", (self.code.map SourceCode.toJson).getD .null)]

end SourceInput

/-- Only validated metadata has this type. -/
structure RegisteredSource where
  data : SourceInput
  valid : data.validate = .ok ()

structure SourceReadInput where
  formatVersion : Nat
  sourceId : String
  sourceRevision : Nat
  accessRevision : Nat
  paths : List String

structure VerifiedSourceSelection where
  source : RegisteredSource
  accessRevision : Nat
  files : List SourceFile

structure ReplyFile where
  path : String
  blob : String
  content : String

structure Reply where
  formatVersion : Nat
  sourceId : String
  sourceRevision : Nat
  commit : String
  tree : String
  files : List ReplyFile

open Records in
def ReplyFile.read (v : Json.Value) : Option ReplyFile := do
  let f ← Json.fields ["path", "blob", "content"] v
  return { path := ← field f "path" string, blob := ← field f "blob" string, content := ← field f "content" string }

open Records in
def Reply.read (v : Json.Value) : Option Reply := do
  let f ← Json.fields ["format_version", "source_id", "source_revision", "commit", "tree", "files"] v
  return {
    formatVersion := ← field f "format_version" (·.asNum 256)
    sourceId := ← field f "source_id" string
    sourceRevision := ← field f "source_revision" u64
    commit := ← field f "commit" string
    tree := ← field f "tree" string
    files := ← field f "files" (·.asArr ReplyFile.read) }

/-- Content that is not text, or a Git LFS pointer in place of text. -/
def notText (content : String) : Bool :=
  content.toList.any (fun c => Text.isControl c && !(c == '\n' || c == '\t' || c == '\r')) ||
    "version https://git-lfs.github.com/spec/v1\n".toList.isPrefixOf content.toList

namespace RegisteredSource

def id (self : RegisteredSource) : String := self.data.sourceId
def revision (self : RegisteredSource) : Nat := self.data.sourceRevision
def facts (self : RegisteredSource) : SourceInput := self.data

def authorityRecord (self : RegisteredSource) : Except Denied String :=
  Records.encode "source" (.obj [("data", self.data.toJson)])

def fromVerifiedGit (data : SourceInput) : Except Denied RegisteredSource :=
  match h : data.validate with
  | .error e => .error e
  | .ok () => do
    let source : RegisteredSource := ⟨data, h⟩
    let _ ← source.authorityRecord
    return source

def selected (self : RegisteredSource) (i : SourceReadInput) : Except Denied (List SourceFile) := do
  denyIf (i.formatVersion ≠ 1 ∨ i.sourceId ≠ self.id ∨ i.sourceRevision ≠ self.revision ∨ self.data.role = "code" ∨
    i.paths = [] ∨ i.paths.length > 32 ∨ ascending i.paths = false) .invalidInput
  storedNumber i.accessRevision false
  let selected ← collect i.paths fun path =>
    match self.data.files.find? (fun f => f.path == path) with
    | some f => .ok f
    | none => .error .bindingMismatch
  denyIf ((selected.map (·.bytes)).sum > 131072) .invalidInput
  return selected

section
variable [Hashes]

/-- What one received file has to be. -/
def checkReceived (expected : SourceFile) (received : ReplyFile) : Except Denied Unit :=
  denyIf (received.path ≠ expected.path ∨ received.blob ≠ expected.blob ∨
    received.content.utf8ByteSize ≠ expected.bytes ∨ sha256 (Text.bytes received.content) ≠ expected.sha256 ∨
    notText received.content = true) .bindingMismatch

/-- The verified files with their contents: the `files` of the JSON the source builds here. -/
def verifyReply (self : RegisteredSource) (i : SourceReadInput) (body : String) :
    Except Denied (List (SourceFile × String)) := do
  let selected ← self.selected i
  denyIf (body.utf8ByteSize > 393216) .invalidInput
  match (Json.parse body).bind Reply.read with
  | none => .error .invalidInput
  | some r =>
    denyIf (r.formatVersion ≠ 1 ∨ r.sourceId ≠ self.id ∨ r.sourceRevision ≠ self.revision ∨
      r.commit ≠ self.data.commit ∨ r.tree ≠ self.data.tree ∨ r.files.length ≠ selected.length) .bindingMismatch
    collect (selected.zip r.files) fun (expected, received) => do
      checkReceived expected received
      return (expected, received.content)

def verifySelection (self : RegisteredSource) (i : SourceReadInput) (body : String) :
    Except Denied VerifiedSourceSelection := do
  let verified ← self.verifyReply i body
  checkAll verified fun (file, content) =>
    denyIf (file.blob ≠ hex (Snapshot.object "blob" (Text.bytes content))) .bindingMismatch
  let files ← self.selected i
  return { source := self, accessRevision := i.accessRevision, files }

end

end RegisteredSource

end Mikaki
