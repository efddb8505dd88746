import Mikaki.Work.SnapshotSound

/-!
# The objects of a snapshot

A tree object lists its entries in Git's order. Each line ends where it says,
so that an object name determines its tree, and a snapshot its files, unless
two of the objects collide.
-/

namespace Mikaki.Snapshot

open Checks Framing

/-- What Git compares: the name, of a directory with a slash. -/
def gitKey : String × Entry → List UInt8
  | (name, .blob _) => Text.bytes name
  | (name, .tree _) => Text.bytes name ++ [47]

def isTree : Entry → Bool
  | .blob _ => false
  | .tree _ => true

def mode : Entry → String
  | .blob _ => "100644 "
  | .tree _ => "40000 "

theorem gitKey_inj {m n : String × Entry} (hm : '/' ∉ m.1.toList) (hn : '/' ∉ n.1.toList) (h : gitKey m = gitKey n) : m.1 = n.1 := by
  have hslash {s t : String} (hs : '/' ∉ s.toList) : Text.bytes s ≠ Text.bytes t ++ [47] := fun he =>
    hs (Text.mem_of_mem_bytes (c := '/') (by decide) (he ▸ List.mem_append_right _ (List.mem_singleton.mpr rfl)))
  obtain ⟨s, e⟩ := m
  obtain ⟨t, e'⟩ := n
  cases e with
  | blob _ =>
    cases e' with
    | blob _ => exact Text.bytes_inj h
    | tree _ => exact absurd h (hslash hm)
  | tree _ =>
    cases e' with
    | blob _ => exact absurd h.symm (hslash hn)
    | tree _ => exact Text.bytes_inj (List.append_cancel_right h)

theorem mode_name_inj {e e' : Entry} {s t : String} (h : mode e ++ s = mode e' ++ t) : isTree e = isTree e' ∧ s = t := by
  have hlist := congrArg String.toList h
  rw [String.toList_append, String.toList_append] at hlist
  have hblob : "100644 ".toList = ['1', '0', '0', '6', '4', '4', ' '] := by decide
  have htree : "40000 ".toList = ['4', '0', '0', '0', '0', ' '] := by decide
  cases e with
  | blob _ =>
    cases e' with
    | blob _ => exact ⟨rfl, String.toList_inj.mp (List.append_cancel_left hlist)⟩
    | tree _ =>
      rw [mode, mode, hblob, htree] at hlist
      exact absurd (List.cons.inj hlist).1 (by decide)
  | tree _ =>
    cases e' with
    | blob _ =>
      rw [mode, mode, hblob, htree] at hlist
      exact absurd (List.cons.inj hlist).1 (by decide)
    | tree _ => exact ⟨rfl, String.toList_inj.mp (List.append_cancel_left hlist)⟩

section
variable [Hashes]

/-! ## Git's order -/

theorem lines_eq (entries : List (String × Entry)) : lines entries = entries.map fun m => line m.1 m.2 := by
  induction entries with
  | nil => rfl
  | cons m entries ih => rw [lines, ih, List.map_cons]

theorem line_key (m : String × Entry) : (line m.1 m.2).1 = gitKey m := by
  obtain ⟨name, e⟩ := m
  cases e <;> rfl

/-- The entries of a tree object are those of the tree, in Git's order. -/
theorem treeBytes_ordered {entries : List (String × Entry)} (h : SoundAll entries) (hp : ∀ l ∈ leavesAll entries, Plain l) :
    ∃ ordered : List (String × Entry), ordered.Perm entries ∧ (ordered.Pairwise fun m n => gitKey m < gitKey n) ∧
      treeBytes (lines entries) = ordered.flatMap fun m => (line m.1 m.2).2 := by
  let ordered := entries.insertionSort fun m n => gitKey m ≤ gitKey n
  have hperm : ordered.Perm entries := List.perm_insertionSort _ entries
  have hnodup : entries.Nodup := h.sorted.imp fun {m n} hlt he => by
    rw [he] at hlt
    exact lt_irrefl _ hlt
  refine ⟨ordered, hperm, ?_, ?_⟩
  · have hle : ordered.Pairwise fun m n => gitKey m ≤ gitKey n := List.pairwise_insertionSort _ entries
    refine (hle.and (hperm.nodup_iff.mpr hnodup)).imp_of_mem fun {m n} hm hn hmn => ?_
    have hm := hperm.mem_iff.mp hm
    have hn := hperm.mem_iff.mp hn
    have hne : gitKey m ≠ gitKey n := fun he =>
      hmn.2 (h.name_inj hm hn (gitKey_inj (h.plain_name hp hm).1 (h.plain_name hp hn).1 he))
    exact (List.le_iff_lt_or_eq.mp hmn.1).resolve_right hne
  · have hmap : ordered.map (fun m => line m.1 m.2) = (lines entries).insertionSort fun a b => a.1 ≤ b.1 := by
      rw [lines_eq]
      refine List.map_insertionSort _ _ _ _ fun m _ n _ => ?_
      rw [line_key, line_key]
    rw [treeBytes, ← hmap, List.flatMap_map]

/-! ## Binding -/

/-- What an entry's line names it by. -/
def content : Entry → List UInt8
  | .blob oid => oid
  | .tree entries => oid entries

theorem line_text (m : String × Entry) : (line m.1 m.2).2 = Text.bytes (mode m.2 ++ m.1) ++ [0] ++ content m.2 := by
  obtain ⟨name, e⟩ := m
  cases e <;> rfl

theorem reads_line : Reads (fun m : String × Entry => Char.ofNat 0 ∉ m.1.toList ∧ (content m.2).length = 20) (fun m => (line m.1 m.2).2)
    fun m => ((isTree m.2, m.1), content m.2) := by
  have hname : Reads (fun m : String × Entry => Char.ofNat 0 ∉ m.1.toList ∧ (content m.2).length = 20)
      (fun m => Text.bytes (mode m.2 ++ m.1) ++ [0]) fun m => (isTree m.2, m.1) := by
    refine Reads.until 0 (fun m hm hz => ?_) fun m n _ _ he => ?_
    · have hc := Text.mem_of_mem_bytes (c := Char.ofNat 0) (by decide) hz
      rw [String.toList_append, List.mem_append] at hc
      rcases hc with hc | hc
      · cases h : m.2 with
        | blob oid =>
          rw [h] at hc
          exact absurd hc (by decide : Char.ofNat 0 ∉ "100644 ".toList)
        | tree entries =>
          rw [h] at hc
          exact absurd hc (by decide : Char.ofNat 0 ∉ "40000 ".toList)
      · exact hm.1 hc
    · obtain ⟨h₁, h₂⟩ := mode_name_inj (Text.bytes_inj he)
      exact Prod.ext h₁ h₂
  have hline := hname.append (Reads.fixed (φ := fun m : String × Entry => content m.2) 20 (fun m hm => hm.2) fun _ _ _ _ he => he)
  intro m n hm hn u v he
  dsimp only at he
  rw [line_text, line_text] at he
  exact hline hm hn he

theorem length_content {e : Entry} (h : ∀ l ∈ leaves e, Plain l) : (content e).length = 20 := by
  cases e with
  | blob oid => exact (h ([], oid) (List.mem_singleton.mpr rfl)).2
  | tree entries => exact Vector.length_toList

variable {entries entries' : List (String × Entry)}

/-- Trees with one text are the same, where entries with one line are. -/
theorem eq_of_treeBytes (h : SoundAll entries) (h' : SoundAll entries') (hp : ∀ l ∈ leavesAll entries, Plain l)
    (hp' : ∀ l ∈ leavesAll entries', Plain l)
    (hrec : ∀ m ∈ entries, ∀ m' ∈ entries', isTree m.2 = isTree m'.2 → content m.2 = content m'.2 → m.2 = m'.2)
    (he : treeBytes (lines entries) = treeBytes (lines entries')) : entries = entries' := by
  obtain ⟨ordered, hperm, -, hbytes⟩ := treeBytes_ordered h hp
  obtain ⟨ordered', hperm', -, hbytes'⟩ := treeBytes_ordered h' hp'
  have hline {es os : List (String × Entry)} (h : SoundAll es) (hp : ∀ l ∈ leavesAll es, Plain l) (hperm : os.Perm es) :
      ∀ m ∈ os, Char.ofNat 0 ∉ m.1.toList ∧ (content m.2).length = 20 := fun m hm =>
    have hm := hperm.mem_iff.mp hm
    ⟨(h.plain_name hp hm).2, length_content (plain_below hp hm)⟩
  have hne (m : String × Entry) : (line m.1 m.2).2 ≠ [] := by
    rw [line_text]
    exact List.append_ne_nil_of_left_ne_nil (List.append_ne_nil_of_right_ne_nil _ (List.cons_ne_nil _ _)) _
  have hmap := reads_line.flatMap (fun m _ => hne m) (hline h hp hperm) (hline h' hp' hperm') (by rw [← hbytes, he, hbytes'])
  have hmeet {m m' : String × Entry} (hm : m ∈ entries) (hm' : m' ∈ entries')
      (e : ((isTree m.2, m.1), content m.2) = ((isTree m'.2, m'.1), content m'.2)) : m = m' := by
    obtain ⟨e₁, e₂⟩ := Prod.mk.inj e
    obtain ⟨e₃, e₄⟩ := Prod.mk.inj e₁
    exact Prod.ext e₄ (hrec m hm m' hm' e₃ e₂)
  refine h.eq_of_mem h' fun m => ⟨fun hm => ?_, fun hm => ?_⟩
  · have hmem := List.mem_map_of_mem (f := fun m : String × Entry => ((isTree m.2, m.1), content m.2)) (hperm.mem_iff.mpr hm)
    rw [hmap] at hmem
    obtain ⟨m', hm', e⟩ := List.mem_map.mp hmem
    have hm' := hperm'.mem_iff.mp hm'
    exact hmeet hm hm' e.symm ▸ hm'
  · have hmem := List.mem_map_of_mem (f := fun m : String × Entry => ((isTree m.2, m.1), content m.2)) (hperm'.mem_iff.mpr hm)
    rw [← hmap] at hmem
    obtain ⟨m', hm', e⟩ := List.mem_map.mp hmem
    have hm' := hperm.mem_iff.mp hm'
    exact hmeet hm' hm e ▸ hm'

/-- What is hashed for an object. -/
def preimage (kind : String) (bytes : List UInt8) : List UInt8 := Text.bytes (kind ++ " " ++ toString bytes.length) ++ [0] ++ bytes

mutual
/-- What is hashed for the trees of an entry. -/
def objects : Entry → List (List UInt8)
  | .blob _ => []
  | .tree entries => preimage "tree" (treeBytes (lines entries)) :: objectsAll entries
def objectsAll : List (String × Entry) → List (List UInt8)
  | [] => []
  | (_, e) :: rest => objects e ++ objectsAll rest
end

theorem mem_objectsAll {m : String × Entry} (hm : m ∈ entries) {x : List UInt8} (hx : x ∈ objects m.2) : x ∈ objectsAll entries := by
  induction entries with
  | nil => exact (List.not_mem_nil hm).elim
  | cons n entries ih =>
    rw [objectsAll, List.mem_append]
    rcases List.mem_cons.mp hm with rfl | hm
    · exact .inl hx
    · exact .inr (ih hm)

omit [Hashes] in
theorem preimage_inj {bytes bytes' : List UInt8} (h : preimage "tree" bytes = preimage "tree" bytes') : bytes = bytes' := by
  have hz (n : Nat) : (0 : UInt8) ∉ Text.bytes ("tree" ++ " " ++ toString n) := fun h0 => by
    have hc := Text.mem_of_mem_bytes (c := Char.ofNat 0) (by decide) h0
    rw [String.toList_append, List.mem_append] at hc
    rcases hc with hc | hc
    · exact absurd hc (by decide)
    · rw [Nat.toString_eq_ofList_toDigits, String.toList_ofList] at hc
      exact absurd (Nat.isDigit_of_mem_toDigits (by omega) (by omega) hc) (by decide)
  exact (Reads.until (P := fun _ => True) (f := fun n : Nat => Text.bytes ("tree" ++ " " ++ toString n)) (φ := fun _ => ()) 0 (fun n _ => hz n)
    (fun _ _ _ _ _ => rfl) trivial trivial h).2

/-- Two trees under one name, of which no objects collide. -/
theorem eq_of_oid_of_content (h : SoundAll entries) (h' : SoundAll entries') (hp : ∀ l ∈ leavesAll entries, Plain l)
    (hp' : ∀ l ∈ leavesAll entries', Plain l)
    (hc : ∀ x ∈ objects (.tree entries), ∀ y ∈ objects (.tree entries'), sha1 x = sha1 y → x = y)
    (hrec : ∀ m ∈ entries, ∀ m' ∈ entries', isTree m.2 = isTree m'.2 → content m.2 = content m'.2 → m.2 = m'.2)
    (he : oid entries = oid entries') : entries = entries' := by
  have hsha : sha1 (preimage "tree" (treeBytes (lines entries))) = sha1 (preimage "tree" (treeBytes (lines entries'))) :=
    Vector.toList_inj.mp he
  exact eq_of_treeBytes h h' hp hp' hrec (preimage_inj (hc _ List.mem_cons_self _ List.mem_cons_self hsha))

theorem eq_of_content {e e' : Entry} (h : Sound e) (h' : Sound e') (hp : ∀ l ∈ leaves e, Plain l) (hp' : ∀ l ∈ leaves e', Plain l)
    (hc : ∀ x ∈ objects e, ∀ y ∈ objects e', sha1 x = sha1 y → x = y) (hk : isTree e = isTree e') (he : content e = content e') :
    e = e' := by
  induction e using Entry.ind generalizing e' with
  | blob oid =>
    cases e' with
    | blob oid' => exact congrArg Entry.blob he
    | tree entries' => cases hk
  | tree entries ih =>
    cases e' with
    | blob oid' => cases hk
    | tree entries' =>
      refine congrArg Entry.tree (eq_of_oid_of_content h.all.1 h'.all.1 hp hp' hc (fun m hm m' hm' => ?_) he)
      exact ih m hm (h.all.1.each m hm) (h'.all.1.each m' hm') (plain_below hp hm) (plain_below hp' hm') fun x hx y hy =>
        hc x (List.mem_cons_of_mem _ (mem_objectsAll hm hx)) y (List.mem_cons_of_mem _ (mem_objectsAll hm' hy))

theorem eq_of_oid (h : SoundAll entries) (h' : SoundAll entries') (hp : ∀ l ∈ leavesAll entries, Plain l)
    (hp' : ∀ l ∈ leavesAll entries', Plain l)
    (hc : ∀ x ∈ objects (.tree entries), ∀ y ∈ objects (.tree entries'), sha1 x = sha1 y → x = y)
    (he : oid entries = oid entries') : entries = entries' :=
  eq_of_oid_of_content h h' hp hp' hc (fun m hm m' hm' => eq_of_content (h.each m hm) (h'.each m' hm') (plain_below hp hm) (plain_below hp' hm')
    fun x hx y hy => hc x (List.mem_cons_of_mem _ (mem_objectsAll hm hx)) y (List.mem_cons_of_mem _ (mem_objectsAll hm' hy))) he

end

/-! ## The names of files -/

theorem nibble_inj {a b : UInt8} (ha : Text.isLowerHex a = true) (hb : Text.isLowerHex b = true) (h : nibble a = nibble b) : a = b := by
  have hrange {a : UInt8} (ha : Text.isLowerHex a = true) : (48 ≤ a.toNat ∧ a.toNat ≤ 57) ∨ (97 ≤ a.toNat ∧ a.toNat ≤ 102) := by
    simpa [Text.isLowerHex, UInt8.le_iff_toNat_le] using ha
  have ha := hrange ha
  have hb := hrange hb
  simp only [nibble, UInt8.le_iff_toNat_le] at h
  refine UInt8.toNat_inj.mp ?_
  have h57 : (57 : UInt8).toNat = 57 := rfl
  rw [h57] at h
  split at h <;> split at h <;> omega

theorem nibble_lt {a : UInt8} (ha : Text.isLowerHex a = true) : nibble a < 16 := by
  have ha : (48 ≤ a.toNat ∧ a.toNat ≤ 57) ∨ (97 ≤ a.toNat ∧ a.toNat ≤ 102) := by
    simpa [Text.isLowerHex, UInt8.le_iff_toNat_le] using ha
  simp only [nibble, UInt8.le_iff_toNat_le]
  have h57 : (57 : UInt8).toNat = 57 := rfl
  rw [h57]
  split <;> omega

theorem pairs_inj {n : Nat} {l m : List UInt8} (hl : l.length = 2 * n) (hm : m.length = 2 * n)
    (hlx : ∀ b ∈ l, Text.isLowerHex b = true) (hmx : ∀ b ∈ m, Text.isLowerHex b = true) (h : pairs l = pairs m) : l = m := by
  induction n generalizing l m with
  | zero => rw [List.length_eq_zero_iff.mp hl, List.length_eq_zero_iff.mp hm]
  | succ n ih =>
    obtain _ | ⟨a, _ | ⟨b, l⟩⟩ := l
    · simp at hl
    · simp at hl; omega
    · obtain _ | ⟨c, _ | ⟨d, m⟩⟩ := m
      · simp at hm
      · simp at hm; omega
      · simp only [List.forall_mem_cons] at hlx hmx
        obtain ⟨hab, hrest⟩ := List.cons.inj h
        have ha := nibble_lt hlx.1
        have hb := nibble_lt hlx.2.1
        have hc := nibble_lt hmx.1
        have hd := nibble_lt hmx.2.1
        have hnat := congrArg UInt8.toNat hab
        rw [UInt8.toNat_ofNat', UInt8.toNat_ofNat', Nat.mod_eq_of_lt (by omega), Nat.mod_eq_of_lt (by omega)] at hnat
        rw [nibble_inj hlx.1 hmx.1 (by omega), nibble_inj hlx.2.1 hmx.2.1 (by omega),
          ih (by simp only [List.length_cons] at hl; omega) (by simp only [List.length_cons] at hm; omega) hlx.2.2 hmx.2.2 hrest]

theorem leaf_inj {f g : String × String} (hf : Admitted f) (hg : Admitted g) (h : leaf f = leaf g) : f = g := by
  obtain ⟨hpath, hblob⟩ := Prod.mk.inj h
  refine Prod.ext (components_inj hpath) (Text.bytes_inj (pairs_inj (n := 20) ?_ ?_ (List.all_eq_true.mp hf.hex) (List.all_eq_true.mp hg.hex) hblob))
  · rw [Text.length_bytes, hf.size]
  · rw [Text.length_bytes, hg.size]

section
variable [Hashes]

/-- What is hashed for the trees of some files. -/
def treeObjects (files : List (String × String)) : List (List UInt8) :=
  match insertAll [] files with
  | .ok root => objects (.tree root)
  | .error _ => []

theorem snapshot_eq_ok {files : List (String × String)} {r : String × String} : snapshot files = .ok r ↔
    ∃ root, insertAll [] files = .ok root ∧ r = (hex (object "commit" (Text.bytes ("tree " ++ hex (oid root) ++
      "\nauthor Mikaki Snapshot <snapshot@mikaki.invalid> 946684800 +0000\ncommitter " ++
      "Mikaki Snapshot <snapshot@mikaki.invalid> 946684800 +0000\n\nMikaki selected context snapshot\n"))), hex (oid root)) := by
  simp only [snapshot, bind_eq_ok, pure_eq_ok]
  exact exists_congr fun root => and_congr_right fun _ => eq_comm

theorem snapshot_iff (files : List (String × String)) :
    (∃ r, snapshot files = .ok r) ↔ (∀ f ∈ files, Admitted f) ∧ files.Pairwise Apart := by
  constructor
  · rintro ⟨r, h⟩
    obtain ⟨root, hroot, -⟩ := snapshot_eq_ok.mp h
    obtain ⟨-, hall, hapart, -⟩ := insertAll_ok .nil hroot
    exact ⟨hall, hapart⟩
  · rintro ⟨hall, hapart⟩
    obtain ⟨root, hroot⟩ := insertAll_apart .nil hall hapart fun _ _ _ _ hl => absurd hl List.not_mem_nil
    exact ⟨_, snapshot_eq_ok.mpr ⟨root, hroot, rfl⟩⟩

theorem snapshot_perm {files files' : List (String × String)} {r : String × String} (hp : files.Perm files') (h : snapshot files = .ok r) :
    snapshot files' = .ok r := by
  obtain ⟨root, hroot, hr⟩ := snapshot_eq_ok.mp h
  exact snapshot_eq_ok.mpr ⟨root, insertAll_perm hp hroot, hr⟩

omit [Hashes] in
/-- The leaves of a tree of files are plain. -/
theorem plain_of_insertAll {files : List (String × String)} {root : List (String × Entry)} (h : insertAll [] files = .ok root) :
    ∀ l ∈ leavesAll root, Plain l := by
  obtain ⟨-, hall, -, -, hleaves⟩ := insertAll_ok .nil h
  intro l hl
  obtain ⟨f, hf, rfl⟩ := ((hleaves l).mp hl).resolve_right List.not_mem_nil
  exact (hall f hf).plain

theorem files_of_tree {files files' : List (String × String)} {commit commit' tree : String} (h : snapshot files = .ok (commit, tree))
    (h' : snapshot files' = .ok (commit', tree)) (hc : ∀ x ∈ treeObjects files, ∀ y ∈ treeObjects files', sha1 x = sha1 y → x = y)
    (f : String × String) : f ∈ files ↔ f ∈ files' := by
  obtain ⟨root, hroot, hr⟩ := snapshot_eq_ok.mp h
  obtain ⟨root', hroot', hr'⟩ := snapshot_eq_ok.mp h'
  rw [treeObjects, treeObjects, hroot, hroot'] at hc
  have hhex : hex (oid root) = hex (oid root') := (Prod.mk.inj hr).2.symm.trans (Prod.mk.inj hr').2
  have hoid : oid root = oid root' := by rw [← pairs_hex (oid root), hhex, pairs_hex]
  obtain ⟨hsound, hall, -, -, hleaves⟩ := insertAll_ok .nil hroot
  obtain ⟨hsound', hall', -, -, hleaves'⟩ := insertAll_ok .nil hroot'
  obtain rfl := eq_of_oid hsound hsound' (plain_of_insertAll hroot) (plain_of_insertAll hroot') hc hoid
  have hmem {fs gs : List (String × String)} (hfs : ∀ f ∈ fs, Admitted f) (hgs : ∀ g ∈ gs, Admitted g)
      (hf : ∀ l, l ∈ leavesAll root ↔ (∃ f ∈ fs, l = leaf f) ∨ l ∈ leavesAll [])
      (hg : ∀ l, l ∈ leavesAll root ↔ (∃ g ∈ gs, l = leaf g) ∨ l ∈ leavesAll []) (hm : f ∈ fs) : f ∈ gs := by
    obtain ⟨g, hg, he⟩ := ((hg _).mp ((hf (leaf f)).mpr (.inl ⟨f, hm, rfl⟩))).resolve_right List.not_mem_nil
    rw [leaf_inj (hfs f hm) (hgs g hg) he]
    exact hg
  exact ⟨hmem hall hall' hleaves hleaves', hmem hall' hall hleaves' hleaves⟩

/-- Which files have a snapshot, and what its tree says of them. -/
theorem snapshot_tree :
    (∀ files, (∃ r, snapshot files = .ok r) ↔ (∀ f ∈ files, Admitted f) ∧ files.Pairwise Apart) ∧
      (∀ files files' r, files.Perm files' → snapshot files = .ok r → snapshot files' = .ok r) ∧
      (∀ files root, insertAll [] files = .ok root → ∀ entries, Within root entries →
        ∃ ordered : List (String × Entry), ordered.Perm entries ∧ (ordered.Pairwise fun m n => gitKey m < gitKey n) ∧
          treeBytes (lines entries) = ordered.flatMap fun m => Text.bytes (mode m.2 ++ m.1) ++ [0] ++ content m.2) ∧
      ∀ files files' commit commit' tree, snapshot files = .ok (commit, tree) → snapshot files' = .ok (commit', tree) →
        (∀ x ∈ treeObjects files, ∀ y ∈ treeObjects files', sha1 x = sha1 y → x = y) → ∀ f, f ∈ files ↔ f ∈ files' := by
  refine ⟨snapshot_iff, fun files files' r hp h => snapshot_perm hp h, fun files root hroot entries hw => ?_,
    fun files files' commit commit' tree h h' hc => files_of_tree h h' hc⟩
  obtain ⟨ordered, hperm, hsorted, hbytes⟩ :=
    treeBytes_ordered ((insertAll_ok .nil hroot).1.within hw) (plain_within (plain_of_insertAll hroot) hw)
  exact ⟨ordered, hperm, hsorted, hbytes.trans (List.flatMap_congr fun m _ => line_text m)⟩

end

/-! ## A file beside a directory -/

namespace Pair

def blob : String := "587be6b4c3f93f93c489c0111bba5596147a26cb"

/-- `a.c` comes before `a/file`, though `a` comes before `a.c`. -/
def files : List (String × String) := [("a/file", blob), ("a.c", blob)]

end Pair

theorem snapshot_tree_pair :
    ∃ r, snapshot Pair.files = .ok r ∧ snapshot Pair.files.reverse = .ok r := by
  have hall : ∀ f ∈ Pair.files, Admitted f := by
    intro f hf
    simp only [Pair.files, List.mem_cons, List.not_mem_nil, or_false] at hf
    rcases hf with rfl | rfl
    · exact ⟨by decide +kernel, by decide +kernel, by decide +kernel⟩
    · exact ⟨by decide +kernel, by decide +kernel, by decide +kernel⟩
  have hapart : Pair.files.Pairwise Apart := by
    refine List.pairwise_pair.mpr ⟨?_, ?_⟩
    · rintro (h | h)
      · exact absurd h (by decide)
      · exact absurd h (by decide)
    · rintro (h | h)
      · exact absurd h (by decide)
      · exact absurd h (by decide)
  obtain ⟨r, hr⟩ := (snapshot_tree.1 Pair.files).mpr ⟨hall, hapart⟩
  exact ⟨r, hr, snapshot_tree.2.1 _ _ r (List.reverse_perm _).symm hr⟩

end Mikaki.Snapshot
