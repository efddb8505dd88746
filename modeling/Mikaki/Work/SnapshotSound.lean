import Mikaki.Work.Snapshot

/-!
# What a snapshot names

A tree stands for its leaves, the paths of its blobs. Insertion adds one leaf,
or fails where a path meets another one; a tree with its names in order is the
only one with its leaves, and the object names determine it up to collisions.
-/

namespace Mikaki.Snapshot

open Checks

@[elab_as_elim] theorem Entry.ind {P : Entry → Prop} (blob : ∀ oid, P (.blob oid))
    (tree : ∀ entries, (∀ m ∈ entries, P m.2) → P (.tree entries)) (e : Entry) : P e :=
  @Entry.rec P (fun entries => ∀ m ∈ entries, P m.2) (fun m => P m.2) blob tree (fun _ h => (List.not_mem_nil h).elim)
    (fun _ _ hm hms => List.forall_mem_cons.mpr ⟨hm, hms⟩) (fun _ _ h => h) e

/-! ## Leaves -/

mutual
/-- The paths below an entry and their blobs. -/
def leaves : Entry → List (List String × List UInt8)
  | .blob oid => [([], oid)]
  | .tree entries => leavesAll entries
def leavesAll : List (String × Entry) → List (List String × List UInt8)
  | [] => []
  | (name, entry) :: rest => (leaves entry).map (fun l => (name :: l.1, l.2)) ++ leavesAll rest
end

/-- The names of a tree are in order, and no subtree is empty. -/
inductive Sound : Entry → Prop where
  | blob (oid : List UInt8) : Sound (.blob oid)
  | tree (entries : List (String × Entry)) (ne : entries ≠ []) (sorted : entries.Pairwise fun m n => m.1 < n.1)
      (each : ∀ m ∈ entries, Sound m.2) : Sound (.tree entries)

structure SoundAll (entries : List (String × Entry)) : Prop where
  sorted : entries.Pairwise fun m n => m.1 < n.1
  each : ∀ m ∈ entries, Sound m.2

theorem Sound.all {entries : List (String × Entry)} (h : Sound (.tree entries)) : SoundAll entries ∧ entries ≠ [] := by
  cases h with
  | tree _ ne sorted each => exact ⟨⟨sorted, each⟩, ne⟩

theorem SoundAll.nil : SoundAll [] := ⟨.nil, fun _ h => (List.not_mem_nil h).elim⟩

theorem mem_leavesAll {entries : List (String × Entry)} {path : List String} {oid : List UInt8} :
    (path, oid) ∈ leavesAll entries ↔ ∃ m ∈ entries, ∃ rest, path = m.1 :: rest ∧ (rest, oid) ∈ leaves m.2 := by
  induction entries with
  | nil => simp [leavesAll]
  | cons m entries ih =>
    rw [leavesAll, List.mem_append, List.mem_map, ih, List.exists_mem_cons_iff]
    refine or_congr ⟨?_, ?_⟩ Iff.rfl
    · intro ⟨l, hl, he⟩
      cases he
      exact ⟨l.1, rfl, hl⟩
    · intro ⟨rest, he, hl⟩
      exact ⟨(rest, oid), hl, by rw [he]⟩

theorem Sound.leaves_ne {e : Entry} (h : Sound e) : ∃ l, l ∈ leaves e := by
  induction e using Entry.ind with
  | blob oid => exact ⟨([], oid), List.mem_singleton.mpr rfl⟩
  | tree entries ih =>
    obtain ⟨hall, hne⟩ := h.all
    obtain ⟨m, hm⟩ := List.exists_mem_of_ne_nil entries hne
    obtain ⟨l, hl⟩ := ih m hm (hall.each m hm)
    exact ⟨(m.1 :: l.1, l.2), mem_leavesAll.mpr ⟨m, hm, l.1, rfl, hl⟩⟩

/-- Names are looked up in the order. -/
theorem SoundAll.lookup {entries : List (String × Entry)} (h : SoundAll entries) {name : String} {e : Entry} :
    entries.lookup name = some e ↔ (name, e) ∈ entries := by
  induction entries with
  | nil => simp
  | cons m entries ih =>
    obtain ⟨hm, hms⟩ := List.pairwise_cons.mp h.sorted
    have ih := ih ⟨hms, fun n hn => h.each n (List.mem_cons_of_mem _ hn)⟩
    by_cases hname : name = m.1
    · subst hname
      rw [List.lookup_cons, beq_self_eq_true]
      refine ⟨fun he => ?_, fun he => ?_⟩
      · cases he
        exact List.mem_cons_self
      · rcases List.mem_cons.mp he with he | he
        · rw [← he]
        · exact absurd (hm _ he) (lt_irrefl _)
    · rw [List.lookup_cons, beq_false_of_ne hname, List.mem_cons]
      refine ih.trans ?_
      exact ⟨.inr, fun he => he.resolve_left fun h => hname (congrArg Prod.fst h)⟩

theorem SoundAll.name_inj {entries : List (String × Entry)} (h : SoundAll entries) {m n : String × Entry} (hm : m ∈ entries)
    (hn : n ∈ entries) (he : m.1 = n.1) : m = n := by
  have h₁ : entries.lookup m.1 = some m.2 := h.lookup.mpr hm
  have h₂ : entries.lookup n.1 = some n.2 := h.lookup.mpr hn
  rw [he, h₂] at h₁
  exact Prod.ext he (Option.some.inj h₁).symm

/-! ## Insertion -/

theorem mem_insertEntry {name : String} {e : Entry} {entries : List (String × Entry)} {m : String × Entry} :
    m ∈ insertEntry name e entries ↔ m = (name, e) ∨ m ∈ entries := by
  induction entries with
  | nil => simp [insertEntry]
  | cons n entries ih =>
    rw [insertEntry]
    split
    · rw [List.mem_cons]
    · rw [List.mem_cons, ih, List.mem_cons]
      exact or_left_comm

theorem replaceEntry_eq (name : String) (e : Entry) (entries : List (String × Entry)) :
    replaceEntry name e entries = entries.map fun m => if m.1 = name then (m.1, e) else m := rfl

theorem mem_replaceEntry {name : String} {e : Entry} {entries : List (String × Entry)} {m : String × Entry} :
    m ∈ replaceEntry name e entries ↔ (m ∈ entries ∧ m.1 ≠ name) ∨ (m = (name, e) ∧ ∃ n ∈ entries, n.1 = name) := by
  rw [replaceEntry_eq, List.mem_map]
  constructor
  · rintro ⟨n, hn, rfl⟩
    by_cases hname : n.1 = name
    · rw [if_pos hname]
      exact .inr ⟨by rw [hname], n, hn, hname⟩
    · rw [if_neg hname]
      exact .inl ⟨hn, hname⟩
  · rintro (⟨hm, hname⟩ | ⟨rfl, n, hn, hname⟩)
    · exact ⟨m, hm, if_neg hname⟩
    · exact ⟨n, hn, by rw [if_pos hname, hname]⟩

theorem SoundAll.insertEntry {name : String} {e : Entry} {entries : List (String × Entry)} (h : SoundAll entries) (he : Sound e)
    (hname : entries.lookup name = none) : SoundAll (insertEntry name e entries) := by
  have hnot : ∀ m ∈ entries, m.1 ≠ name := fun m hm hm' => by
    have hl : entries.lookup name = some m.2 := h.lookup.mpr (hm' ▸ hm)
    rw [hname] at hl
    cases hl
  constructor
  · have hsorted := h.sorted
    clear h hname
    induction entries with
    | nil => exact List.pairwise_singleton _ _
    | cons m entries ih =>
      obtain ⟨hm, hms⟩ := List.pairwise_cons.mp hsorted
      rw [Snapshot.insertEntry]
      split
      · next hlt =>
        refine List.pairwise_cons.mpr ⟨fun n hn => ?_, hsorted⟩
        rcases List.mem_cons.mp hn with rfl | hn
        · exact hlt
        · exact lt_trans hlt (hm n hn)
      · next hlt =>
        refine List.pairwise_cons.mpr ⟨fun n hn => ?_, ih (fun n hn => hnot n (List.mem_cons_of_mem _ hn)) hms⟩
        rcases mem_insertEntry.mp hn with rfl | hn
        · exact lt_of_le_of_ne (not_lt.mp hlt) (hnot m List.mem_cons_self)
        · exact hm n hn
  · intro m hm
    rcases mem_insertEntry.mp hm with rfl | hm
    · exact he
    · exact h.each m hm

theorem SoundAll.replaceEntry {name : String} {e : Entry} {entries : List (String × Entry)} (h : SoundAll entries) (he : Sound e) :
    SoundAll (replaceEntry name e entries) := by
  constructor
  · rw [replaceEntry_eq, List.pairwise_map]
    refine h.sorted.imp fun {m n} hlt => ?_
    have hfst (m : String × Entry) : (if m.1 = name then (m.1, e) else m).1 = m.1 := by
      split <;> rfl
    rw [hfst, hfst]
    exact hlt
  · intro m hm
    rcases mem_replaceEntry.mp hm with ⟨hm, -⟩ | ⟨rfl, -⟩
    · exact h.each m hm
    · exact he

/-- Two paths of which one continues or equals the other. -/
def Clash (p q : List String) : Prop := p <+: q ∨ q <+: p

/-- What an insertion that succeeds has done. -/
structure Inserted (entries : List (String × Entry)) (path : List String) (blob : List UInt8) (after : List (String × Entry)) : Prop where
  sound : SoundAll after
  ne : after ≠ []
  leaves : ∀ p oid, (p, oid) ∈ leavesAll after ↔ (p = path ∧ oid = blob) ∨ (p, oid) ∈ leavesAll entries
  apart : ∀ p oid, (p, oid) ∈ leavesAll entries → ¬Clash p path

theorem clash_cons {a b : String} {p q : List String} : Clash (a :: p) (b :: q) ↔ a = b ∧ Clash p q := by
  rw [Clash, Clash, List.cons_prefix_cons, List.cons_prefix_cons]
  constructor
  · rintro (⟨rfl, h⟩ | ⟨rfl, h⟩)
    · exact ⟨rfl, .inl h⟩
    · exact ⟨rfl, .inr h⟩
  · rintro ⟨rfl, h | h⟩
    · exact .inl ⟨rfl, h⟩
    · exact .inr ⟨rfl, h⟩

/-- A name that is not there has no leaves. -/
theorem SoundAll.apart_of_none {entries : List (String × Entry)} (h : SoundAll entries) {head : String} (hl : entries.lookup head = none)
    {p rest : List String} {oid : List UInt8} (hp : (p, oid) ∈ leavesAll entries) : ¬Clash p (head :: rest) := by
  obtain ⟨m, hm, r, rfl, -⟩ := mem_leavesAll.mp hp
  rw [clash_cons]
  rintro ⟨rfl, -⟩
  rw [(h.lookup (e := m.2)).mpr hm] at hl
  cases hl

/-- A new entry under a new name. -/
theorem SoundAll.inserted_none {entries : List (String × Entry)} (h : SoundAll entries) {head : String} (hl : entries.lookup head = none)
    {e : Entry} (he : Sound e) {rest : List String} {blob : List UInt8}
    (hleaves : ∀ p oid, (p, oid) ∈ Snapshot.leaves e ↔ p = rest ∧ oid = blob) :
    Inserted entries (head :: rest) blob (Snapshot.insertEntry head e entries) := by
  refine ⟨h.insertEntry he hl, List.ne_nil_of_mem (mem_insertEntry.mpr (.inl rfl)), fun p oid => ?_, fun p oid => h.apart_of_none hl⟩
  rw [mem_leavesAll, mem_leavesAll]
  constructor
  · rintro ⟨m, hm, r, rfl, hr⟩
    rcases mem_insertEntry.mp hm with rfl | hm
    · obtain ⟨rfl, rfl⟩ := (hleaves r oid).mp hr
      exact .inl ⟨rfl, rfl⟩
    · exact .inr ⟨m, hm, r, rfl, hr⟩
  · rintro (⟨rfl, rfl⟩ | ⟨m, hm, r, rfl, hr⟩)
    · exact ⟨(head, e), mem_insertEntry.mpr (.inl rfl), rest, rfl, (hleaves _ _).mpr ⟨rfl, rfl⟩⟩
    · exact ⟨m, mem_insertEntry.mpr (.inr hm), r, rfl, hr⟩

/-- A leaf in the subtree of a name. -/
theorem SoundAll.inserted_some {entries tree after : List (String × Entry)} (h : SoundAll entries) {head : String}
    (hl : entries.lookup head = some (.tree tree)) {rest : List String} {blob : List UInt8} (hi : Inserted tree rest blob after) :
    Inserted entries (head :: rest) blob (Snapshot.replaceEntry head (.tree after) entries) := by
  have hmem := h.lookup.mp hl
  have hnew : (head, Entry.tree after) ∈ Snapshot.replaceEntry head (.tree after) entries :=
    mem_replaceEntry.mpr (.inr ⟨rfl, _, hmem, rfl⟩)
  refine ⟨h.replaceEntry (.tree after hi.ne hi.sound.sorted hi.sound.each), List.ne_nil_of_mem hnew, fun p oid => ?_, fun p oid hp => ?_⟩
  · rw [mem_leavesAll, mem_leavesAll]
    constructor
    · rintro ⟨m, hm, r, rfl, hr⟩
      rcases mem_replaceEntry.mp hm with ⟨hm, -⟩ | ⟨rfl, -⟩
      · exact .inr ⟨m, hm, r, rfl, hr⟩
      · rcases (hi.leaves r oid).mp hr with ⟨rfl, rfl⟩ | hr
        · exact .inl ⟨rfl, rfl⟩
        · exact .inr ⟨_, hmem, r, rfl, hr⟩
    · rintro (⟨rfl, rfl⟩ | ⟨m, hm, r, rfl, hr⟩)
      · exact ⟨_, hnew, rest, rfl, (hi.leaves _ _).mpr (.inl ⟨rfl, rfl⟩)⟩
      · by_cases hname : m.1 = head
        · obtain rfl := h.name_inj hm hmem hname
          exact ⟨_, hnew, r, rfl, (hi.leaves _ _).mpr (.inr hr)⟩
        · exact ⟨m, mem_replaceEntry.mpr (.inl ⟨hm, hname⟩), r, rfl, hr⟩
  · obtain ⟨m, hm, r, rfl, hr⟩ := mem_leavesAll.mp hp
    rw [clash_cons]
    rintro ⟨hname, hclash⟩
    obtain rfl := h.name_inj hm hmem hname
    exact hi.apart r oid hr hclash

theorem insert_ok {entries after : List (String × Entry)} {path : List String} {blob : List UInt8} (h : SoundAll entries)
    (hi : insert entries path blob = .ok after) : Inserted entries path blob after := by
  induction path generalizing entries after with
  | nil => cases hi
  | cons head rest ih =>
    cases rest with
    | nil =>
      rw [insert] at hi
      cases hl : entries.lookup head with
      | some e =>
        rw [hl] at hi
        cases hi
      | none =>
        rw [hl] at hi
        obtain rfl := Except.ok.inj hi
        refine h.inserted_none hl (.blob blob) fun p oid => ?_
        rw [Snapshot.leaves, List.mem_singleton, Prod.mk.injEq]
    | cons next rest =>
      rw [insert] at hi
      cases hl : entries.lookup head with
      | some e =>
        rw [hl] at hi
        cases e with
        | blob oid => cases hi
        | tree tree =>
          simp only [bind_eq_ok, pure_eq_ok] at hi
          obtain ⟨t, ht, rfl⟩ := hi
          have htree := (h.each _ (h.lookup.mp hl)).all.1
          exact h.inserted_some hl (ih htree ht)
      | none =>
        rw [hl] at hi
        simp only [bind_eq_ok, pure_eq_ok] at hi
        obtain ⟨t, ht, rfl⟩ := hi
        have hi := ih .nil ht
        refine h.inserted_none hl (.tree t hi.ne hi.sound.sorted hi.sound.each) fun p oid => ?_
        rw [Snapshot.leaves, hi.leaves]
        exact or_iff_left List.not_mem_nil

/-- Where no leaf meets the path, there is room for it. -/
theorem insert_apart {entries : List (String × Entry)} {path : List String} (blob : List UInt8) (h : SoundAll entries) (hne : path ≠ [])
    (hp : ∀ p oid, (p, oid) ∈ leavesAll entries → ¬Clash p path) : ∃ after, insert entries path blob = .ok after := by
  induction path generalizing entries with
  | nil => exact absurd rfl hne
  | cons head rest ih =>
    cases rest with
    | nil =>
      cases hl : entries.lookup head with
      | some e =>
        have hmem := h.lookup.mp hl
        obtain ⟨l, hl⟩ := (h.each _ hmem).leaves_ne
        exact absurd (clash_cons.mpr ⟨rfl, .inr List.nil_prefix⟩) (hp (head :: l.1) l.2 (mem_leavesAll.mpr ⟨_, hmem, l.1, rfl, hl⟩))
      | none => exact ⟨_, by rw [insert, hl]⟩
    | cons next rest =>
      cases hl : entries.lookup head with
      | some e =>
        have hmem := h.lookup.mp hl
        cases e with
        | blob oid =>
          exact absurd (clash_cons.mpr ⟨rfl, .inl List.nil_prefix⟩)
            (hp [head] oid (mem_leavesAll.mpr ⟨_, hmem, [], rfl, List.mem_singleton.mpr rfl⟩))
        | tree tree =>
          obtain ⟨t, ht⟩ := ih (h.each _ hmem).all.1 (List.cons_ne_nil _ _) fun p oid hpt hc =>
            hp (head :: p) oid (mem_leavesAll.mpr ⟨_, hmem, p, rfl, hpt⟩) (clash_cons.mpr ⟨rfl, hc⟩)
          exact ⟨_, by rw [insert, hl]; simp only [ht, ok_bind]; rfl⟩
      | none =>
        obtain ⟨t, ht⟩ := ih .nil (List.cons_ne_nil _ _) fun p oid hpt => absurd hpt List.not_mem_nil
        exact ⟨_, by rw [insert, hl]; simp only [ht, ok_bind]; rfl⟩

/-! ## Files -/

def components (file : String) : List String := (file.toList.splitOn '/').map String.ofList

/-- The leaf of a file. -/
def leaf (file : String × String) : List String × List UInt8 := (components file.1, pairs (Text.bytes file.2))

/-- A valid path and forty lowercase hex digits. -/
structure Admitted (file : String × String) : Prop where
  path : Mikaki.path file.1 = .ok ()
  size : file.2.utf8ByteSize = 40
  hex : lowerHex file.2 = true

/-- A path is another one, or a directory above it. -/
def Above (p q : String) : Prop := p = q ∨ p.toList ++ ['/'] <+: q.toList

theorem components_ne (file : String) : components file ≠ [] := by
  rw [components, Ne, List.map_eq_nil_iff]
  exact List.splitOn_ne_nil _ _

theorem intercalate_append {sep : List Char} {l m : List (List Char)} (hl : l ≠ []) (hm : m ≠ []) :
    sep.intercalate (l ++ m) = sep.intercalate l ++ sep ++ sep.intercalate m := by
  induction l with
  | nil => exact absurd rfl hl
  | cons a l ih =>
    by_cases hnil : l = []
    · subst hnil
      rw [List.singleton_append, List.intercalate_cons_of_ne_nil hm, List.intercalate_singleton]
    · rw [List.cons_append, List.intercalate_cons_of_ne_nil (List.append_ne_nil_of_left_ne_nil hnil m), ih hnil,
        List.intercalate_cons_of_ne_nil hnil]
      simp only [List.append_assoc]

theorem components_prefix {p q : String} : components p <+: components q ↔ Above p q := by
  have hjoin (s : String) : ['/'].intercalate (s.toList.splitOn '/') = s.toList := List.intercalate_splitOn '/'
  have hmap : components p <+: components q ↔ p.toList.splitOn '/' <+: q.toList.splitOn '/' := by
    refine ⟨fun h => ?_, fun h => h.map _⟩
    have hback (s : String) : (components s).map String.toList = s.toList.splitOn '/' := by
      rw [components, List.map_map]
      exact List.map_id'' (fun _ => String.toList_ofList) _
    rw [← hback, ← hback]
    exact h.map _
  rw [hmap]
  constructor
  · rintro ⟨rest, h⟩
    cases rest with
    | nil =>
      rw [List.append_nil] at h
      exact .inl (String.toList_inj.mp (by rw [← hjoin p, h, hjoin]))
    | cons r rest =>
      refine .inr ⟨['/'].intercalate (r :: rest), ?_⟩
      rw [← hjoin q, ← h, intercalate_append (List.splitOn_ne_nil _ _) (List.cons_ne_nil _ _), hjoin]
  · rintro (rfl | ⟨rest, h⟩)
    · exact List.prefix_rfl
    · rw [← h, List.append_assoc, List.singleton_append, List.splitOn_append_cons_self]
      exact List.prefix_append _ _

theorem components_inj {p q : String} (h : components p = components q) : p = q := by
  rcases components_prefix.mp (h ▸ List.prefix_rfl : components p <+: components q) with h' | h'
  · exact h'
  · rcases components_prefix.mp (h ▸ List.prefix_rfl : components q <+: components p) with h'' | h''
    · exact h''.symm
    · have h₁ := h'.length_le
      have h₂ := h''.length_le
      rw [List.length_append, List.length_singleton] at h₁ h₂
      omega

/-- Two files of which neither is above the other. -/
def Apart (f g : String × String) : Prop := ¬Above f.1 g.1 ∧ ¬Above g.1 f.1

theorem apart_iff {f g : String × String} : Apart f g ↔ ¬Clash (components f.1) (components g.1) := by
  rw [Apart, Clash, not_or, components_prefix, components_prefix]

section
variable {root after : List (String × Entry)} {files : List (String × String)}

theorem insertAll_cons {f : String × String} : insertAll root (f :: files) = .ok after ↔
    Admitted f ∧ ∃ t, insert root (components f.1) (pairs (Text.bytes f.2)) = .ok t ∧ insertAll t files = .ok after := by
  obtain ⟨file, blob⟩ := f
  simp only [insertAll, bind_eq_ok, exists_unit, denyIf_eq_ok, not_not]
  constructor
  · rintro ⟨hpath, name, hname, hsize, t, ht, hrest⟩
    obtain ⟨⟨-, hhex⟩, rfl⟩ := gitOid_ok.mp hname
    exact ⟨⟨hpath, hsize, hhex⟩, t, ht, hrest⟩
  · rintro ⟨⟨hpath, hsize, hhex⟩, t, ht, hrest⟩
    exact ⟨hpath, blob, gitOid_ok.mpr ⟨⟨.inl hsize, hhex⟩, rfl⟩, hsize, t, ht, hrest⟩

/-- What the files that were inserted are, and what the tree is after them. -/
theorem insertAll_ok (h : SoundAll root) (hi : insertAll root files = .ok after) :
    SoundAll after ∧ (∀ f ∈ files, Admitted f) ∧ files.Pairwise Apart ∧
      (∀ f ∈ files, ∀ p oid, (p, oid) ∈ leavesAll root → ¬Clash p (components f.1)) ∧
      ∀ l, l ∈ leavesAll after ↔ (∃ f ∈ files, l = leaf f) ∨ l ∈ leavesAll root := by
  induction files generalizing root with
  | nil =>
    obtain rfl := Except.ok.inj hi
    refine ⟨h, fun _ hf => (List.not_mem_nil hf).elim, .nil, fun _ hf => (List.not_mem_nil hf).elim, fun l => ?_⟩
    exact ⟨.inr, fun hl => hl.resolve_left fun ⟨_, hf, _⟩ => List.not_mem_nil hf⟩
  | cons f files ih =>
    obtain ⟨hadmitted, t, ht, hrest⟩ := insertAll_cons.mp hi
    have hinserted := insert_ok h ht
    obtain ⟨hsound, hall, hapart, hroot, hleaves⟩ := ih hinserted.sound hrest
    have hnew : (components f.1, pairs (Text.bytes f.2)) ∈ leavesAll t := (hinserted.leaves _ _).mpr (.inl ⟨rfl, rfl⟩)
    refine ⟨hsound, List.forall_mem_cons.mpr ⟨hadmitted, hall⟩, List.pairwise_cons.mpr ⟨fun g hg => apart_iff.mpr (hroot g hg _ _ hnew), hapart⟩,
      List.forall_mem_cons.mpr ⟨hinserted.apart, fun g hg p oid hp => hroot g hg p oid ((hinserted.leaves _ _).mpr (.inr hp))⟩, fun l => ?_⟩
    rw [hleaves l, List.exists_mem_cons_iff, ← Prod.mk.eta (p := l), hinserted.leaves, leaf, Prod.mk.injEq, Prod.mk.eta]
    exact or_assoc.symm.trans (or_congr_left or_comm)

theorem insertAll_apart (h : SoundAll root) (hall : ∀ f ∈ files, Admitted f) (hapart : files.Pairwise Apart)
    (hroot : ∀ f ∈ files, ∀ p oid, (p, oid) ∈ leavesAll root → ¬Clash p (components f.1)) : ∃ after, insertAll root files = .ok after := by
  induction files generalizing root with
  | nil => exact ⟨root, rfl⟩
  | cons f files ih =>
    obtain ⟨hadmitted, hall⟩ := List.forall_mem_cons.mp hall
    obtain ⟨hf, hapart⟩ := List.pairwise_cons.mp hapart
    obtain ⟨hfroot, hroot⟩ := List.forall_mem_cons.mp hroot
    obtain ⟨t, ht⟩ := insert_apart (pairs (Text.bytes f.2)) h (components_ne f.1) hfroot
    have hinserted := insert_ok h ht
    obtain ⟨after, hafter⟩ := ih hinserted.sound hall hapart fun g hg p oid hp => by
      rcases (hinserted.leaves p oid).mp hp with ⟨rfl, -⟩ | hp
      · exact apart_iff.mp (hf g hg)
      · exact hroot g hg p oid hp
    exact ⟨after, insertAll_cons.mpr ⟨hadmitted, t, ht, hafter⟩⟩

end

/-! ## A tree and its leaves -/

theorem SoundAll.eq_of_mem {entries entries' : List (String × Entry)} (h : SoundAll entries) (h' : SoundAll entries')
    (hm : ∀ m, m ∈ entries ↔ m ∈ entries') : entries = entries' := by
  have hnodup {es : List (String × Entry)} (hs : SoundAll es) : es.Nodup :=
    hs.sorted.imp fun {m n} hlt he => by
      rw [he] at hlt
      exact lt_irrefl _ hlt
  refine ((List.perm_ext_iff_of_nodup (hnodup h) (hnodup h')).mpr hm).eq_of_pairwise (fun a b _ _ hab hba => ?_) h.sorted h'.sorted
  exact absurd hab hba.asymm

/-- The leaves of an entry are those under its name. -/
theorem SoundAll.mem_leaves {entries : List (String × Entry)} (h : SoundAll entries) {m : String × Entry} (hm : m ∈ entries)
    {l : List String × List UInt8} : l ∈ leaves m.2 ↔ (m.1 :: l.1, l.2) ∈ leavesAll entries := by
  rw [mem_leavesAll]
  refine ⟨fun hl => ⟨m, hm, l.1, rfl, hl⟩, fun ⟨n, hn, rest, he, hl⟩ => ?_⟩
  obtain ⟨hname, hrest⟩ := List.cons.inj he
  rw [h.name_inj hm hn hname, ← Prod.mk.eta (p := l), hrest]
  exact hl

theorem eq_of_leaves {e e' : Entry} (h : Sound e) (h' : Sound e') (hl : ∀ l, l ∈ leaves e ↔ l ∈ leaves e') : e = e' := by
  induction e using Entry.ind generalizing e' with
  | blob oid =>
    have hmem := (hl ([], oid)).mp (List.mem_singleton.mpr rfl)
    cases e' with
    | blob oid' => rw [(Prod.mk.inj (List.mem_singleton.mp hmem)).2]
    | tree entries' =>
      obtain ⟨m, -, rest, he, -⟩ := mem_leavesAll.mp hmem
      cases he
  | tree entries ih =>
    cases e' with
    | blob oid' =>
      obtain ⟨m, -, rest, he, -⟩ := mem_leavesAll.mp ((hl ([], oid')).mpr (List.mem_singleton.mpr rfl))
      cases he
    | tree entries' =>
      have hs := h.all.1
      have hs' := h'.all.1
      -- an entry of either tree meets one of the other under its name, with the same leaves
      have hmeet {m m' : String × Entry} (hm : m ∈ entries) (hm' : m' ∈ entries') (hname : m.1 = m'.1) : m = m' := by
        refine Prod.ext hname (ih m hm (hs.each m hm) (hs'.each m' hm') fun l => ?_)
        rw [hs.mem_leaves hm, hs'.mem_leaves hm', hname]
        exact hl _
      rw [hs.eq_of_mem hs' fun m => ⟨fun hm => ?_, fun hm => ?_⟩]
      · obtain ⟨l, hml⟩ := (hs.each m hm).leaves_ne
        obtain ⟨m', hm', rest, he, -⟩ := mem_leavesAll.mp ((hl _).mp ((hs.mem_leaves hm).mp hml))
        exact hmeet hm hm' (List.cons.inj he).1 ▸ hm'
      · obtain ⟨l, hml⟩ := (hs'.each m hm).leaves_ne
        obtain ⟨m', hm', rest, he, -⟩ := mem_leavesAll.mp ((hl _).mpr ((hs'.mem_leaves hm).mp hml))
        exact (hmeet hm' hm (List.cons.inj he).1.symm) ▸ hm'

theorem eq_of_leavesAll {entries entries' : List (String × Entry)} (h : SoundAll entries) (h' : SoundAll entries')
    (hl : ∀ l, l ∈ leavesAll entries ↔ l ∈ leavesAll entries') : entries = entries' := by
  by_cases hne : entries = []
  · subst hne
    by_cases hne' : entries' = []
    · exact hne'.symm
    · obtain ⟨l, hl'⟩ := (Sound.tree entries' hne' h'.sorted h'.each).leaves_ne
      exact absurd ((hl l).mpr hl') List.not_mem_nil
  · by_cases hne' : entries' = []
    · obtain ⟨l, hl'⟩ := (Sound.tree entries hne h.sorted h.each).leaves_ne
      rw [hne'] at hl
      exact absurd ((hl l).mp hl') List.not_mem_nil
    · exact Entry.tree.inj (eq_of_leaves (.tree entries hne h.sorted h.each) (.tree entries' hne' h'.sorted h'.each) hl)

/-- The order of the files does not show in the tree. -/
theorem insertAll_perm {files files' : List (String × String)} (hp : files.Perm files') {after : List (String × Entry)}
    (h : insertAll [] files = .ok after) : insertAll [] files' = .ok after := by
  obtain ⟨hsound, hall, hapart, -, hleaves⟩ := insertAll_ok .nil h
  have hsymm : Std.Symm Apart := ⟨fun f g hfg => hfg.symm⟩
  obtain ⟨after', h'⟩ := insertAll_apart .nil (fun f hf => hall f (hp.mem_iff.mpr hf)) ((hp.pairwise_iff (fun {_ _} => hsymm.symm _ _)).mp hapart)
    fun _ _ _ _ hl => absurd hl List.not_mem_nil
  obtain ⟨hsound', -, -, -, hleaves'⟩ := insertAll_ok .nil h'
  rw [h', eq_of_leavesAll hsound hsound' fun l => ?_]
  rw [hleaves, hleaves']
  refine or_congr_left (exists_congr fun f => and_congr_left fun _ => hp.mem_iff)

/-! ## Names -/

/-- What names and blobs a tree may hold. -/
def Plain (l : List String × List UInt8) : Prop :=
  (∀ name ∈ l.1, '/' ∉ name.toList ∧ Char.ofNat 0 ∉ name.toList) ∧ l.2.length = 20

theorem mem_splitOn {a : Char} {l : List Char} {p : List Char} (hp : p ∈ l.splitOn a) : ∀ x ∈ p, x ∈ l ∧ x ≠ a := by
  induction l generalizing p with
  | nil =>
    rw [List.splitOn_nil, List.mem_singleton] at hp
    subst hp
    exact fun x hx => (List.not_mem_nil hx).elim
  | cons b l ih =>
    obtain ⟨q, qs, hq⟩ := List.exists_cons_of_ne_nil (List.splitOn_ne_nil a l)
    rw [List.splitOn_cons_eq_if_modifyHead] at hp
    split at hp
    · rcases List.mem_cons.mp hp with rfl | hp
      · exact fun x hx => (List.not_mem_nil hx).elim
      · exact fun x hx => ⟨List.mem_cons_of_mem _ (ih hp x hx).1, (ih hp x hx).2⟩
    · next hb =>
      rw [hq, List.modifyHead_cons] at hp
      rw [hq] at ih
      rcases List.mem_cons.mp hp with rfl | hp
      · intro x hx
        rcases List.mem_cons.mp hx with rfl | hx
        · exact ⟨List.mem_cons_self, fun he => hb (beq_iff_eq.mpr he)⟩
        · exact ⟨List.mem_cons_of_mem _ (ih List.mem_cons_self x hx).1, (ih List.mem_cons_self x hx).2⟩
      · have hmem := ih (List.mem_cons_of_mem _ hp)
        exact fun x hx => ⟨List.mem_cons_of_mem _ (hmem x hx).1, (hmem x hx).2⟩

theorem Admitted.plain {f : String × String} (h : Admitted f) : Plain (leaf f) := by
  refine ⟨fun name hname => ?_, length_pairs 20 _ (by rw [Text.length_bytes, h.size])⟩
  obtain ⟨p, hp, rfl⟩ := List.mem_map.mp hname
  rw [String.toList_ofList]
  refine ⟨fun hs => (mem_splitOn hp _ hs).2 rfl, fun hz => ?_⟩
  have hpath := h.path
  rw [Mikaki.path, denyIf_eq_ok, not_or, not_or, not_or] at hpath
  exact hpath.2.2.1 (List.any_eq_true.mpr ⟨_, (mem_splitOn hp _ hz).1, by decide⟩)

/-- The trees in a tree, itself among them. -/
inductive Within (root : List (String × Entry)) : List (String × Entry) → Prop where
  | root : Within root root
  | subtree {entries tree : List (String × Entry)} {name : String} (h : Within root entries) (hm : (name, .tree tree) ∈ entries) :
      Within root tree

theorem SoundAll.within {root entries : List (String × Entry)} (h : SoundAll root) (hw : Within root entries) : SoundAll entries := by
  induction hw with
  | root => exact h
  | subtree _ hm ih => exact (ih.each _ hm).all.1

theorem plain_below {entries : List (String × Entry)} (h : ∀ l ∈ leavesAll entries, Plain l) {m : String × Entry} (hm : m ∈ entries) :
    ∀ l ∈ leaves m.2, Plain l := fun l hl =>
  have hp := h (m.1 :: l.1, l.2) (mem_leavesAll.mpr ⟨m, hm, l.1, rfl, hl⟩)
  ⟨fun name hname => hp.1 name (List.mem_cons_of_mem _ hname), hp.2⟩

theorem plain_within {root entries : List (String × Entry)} (h : ∀ l ∈ leavesAll root, Plain l) (hw : Within root entries) :
    ∀ l ∈ leavesAll entries, Plain l := by
  induction hw with
  | root => exact h
  | subtree _ hm ih => exact plain_below ih hm

theorem SoundAll.plain_name {entries : List (String × Entry)} (h : SoundAll entries) (hp : ∀ l ∈ leavesAll entries, Plain l)
    {m : String × Entry} (hm : m ∈ entries) : '/' ∉ m.1.toList ∧ Char.ofNat 0 ∉ m.1.toList := by
  obtain ⟨l, hl⟩ := (h.each m hm).leaves_ne
  exact (hp _ ((h.mem_leaves hm).mp hl)).1 m.1 List.mem_cons_self

end Mikaki.Snapshot
