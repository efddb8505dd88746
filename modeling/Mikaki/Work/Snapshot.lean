import Mikaki.Work.BasicSound

/-!
# The parentless Git snapshot of selected files

A tree maps names to blobs and subtrees. Git orders a tree's entries by name, a
directory by its name with a slash, so the stored order of the map does not
show in an object name.
-/

namespace Mikaki

open Checks

/-- A path that stays inside a repository and outside its `.git`. -/
def path (value : String) : Except Denied Unit :=
  denyIf (value.utf8ByteSize = 0 ∨ value.utf8ByteSize > 256 ∨
    value.toList.any (fun c => Text.isControl c || c == '\\') = true ∨
    (value.toList.splitOn '/').any (fun p => p.isEmpty || p == ['.'] || p == ['.', '.'] ||
      ".git".toList.isPrefixOf (p.map Char.toLower)) = true) .invalidInput

namespace Snapshot

section
variable [Hashes]

/-- The name of a Git object. -/
def object (kind : String) (bytes : List UInt8) : List UInt8 :=
  (sha1 (Text.bytes (kind ++ " " ++ toString bytes.length) ++ [0] ++ bytes)).toList

end

inductive Entry where
  | blob (oid : List UInt8)
  | tree (entries : List (String × Entry))

/-- `BTreeMap::insert` under a key that is not there. -/
def insertEntry (name : String) (entry : Entry) : List (String × Entry) → List (String × Entry)
  | [] => [(name, entry)]
  | (n, e) :: rest => if name < n then (name, entry) :: (n, e) :: rest else (n, e) :: insertEntry name entry rest

/-- `BTreeMap::insert` under a key that is there. -/
def replaceEntry (name : String) (entry : Entry) (entries : List (String × Entry)) : List (String × Entry) :=
  entries.map fun (n, e) => if n = name then (n, entry) else (n, e)

def insert (entries : List (String × Entry)) (path : List String) (blob : List UInt8) :
    Except Denied (List (String × Entry)) :=
  match path with
  | [] => .error .invalidInput
  | [head] =>
    match entries.lookup head with
    | some _ => .error .bindingMismatch
    | none => .ok (insertEntry head (.blob blob) entries)
  | head :: next :: rest =>
    match entries.lookup head with
    | some (.blob _) => .error .bindingMismatch
    | some (.tree tree) => do
      let tree ← insert tree (next :: rest) blob
      return replaceEntry head (.tree tree) entries
    | none => do
      let tree ← insert [] (next :: rest) blob
      return insertEntry head (.tree tree) entries

section
variable [Hashes]

/-- Entries in Git's order, each `mode name\0oid`. -/
def treeBytes (lines : List (List UInt8 × List UInt8)) : List UInt8 :=
  (lines.insertionSort fun a b => a.1 ≤ b.1).flatMap Prod.snd

mutual
/-- An entry's sorting key and its line in the tree object. -/
def line (name : String) : Entry → List UInt8 × List UInt8
  | .blob oid => (Text.bytes name, Text.bytes ("100644 " ++ name) ++ [0] ++ oid)
  | .tree entries => (Text.bytes name ++ [47],
      Text.bytes ("40000 " ++ name) ++ [0] ++ object "tree" (treeBytes (lines entries)))
def lines : List (String × Entry) → List (List UInt8 × List UInt8)
  | [] => []
  | (name, entry) :: rest => line name entry :: lines rest
end

def oid (entries : List (String × Entry)) : List UInt8 := object "tree" (treeBytes (lines entries))

def insertAll (root : List (String × Entry)) : List (String × String) → Except Denied (List (String × Entry))
  | [] => .ok root
  | (file, blob) :: rest => do
    path file
    let name ← gitOid blob
    denyIf (name.utf8ByteSize ≠ 40) .invalidInput
    let root ← insert root ((file.toList.splitOn '/').map String.ofList) (pairs (Text.bytes blob))
    insertAll root rest

/-- The names of the snapshot commit and of its tree. -/
def snapshot (files : List (String × String)) : Except Denied (String × String) := do
  let root ← insertAll [] files
  let tree := hex (oid root)
  let body := "tree " ++ tree ++ "\nauthor Mikaki Snapshot <snapshot@mikaki.invalid> 946684800 +0000\ncommitter " ++
    "Mikaki Snapshot <snapshot@mikaki.invalid> 946684800 +0000\n\nMikaki selected context snapshot\n"
  return (hex (object "commit" (Text.bytes body)), tree)

end

end Snapshot

end Mikaki
