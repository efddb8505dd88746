import Mikaki.Lib.JsonTextSound
import Mikaki.Webauthn.Ceremony

/-!
# Bounded and strict JSON

The guard counts brackets outside strings before anything is allocated. The
strict one then reads the text and refuses an object with a repeated name.
-/

namespace Mikaki.Webauthn

open Checks JsonText

/-- What the guard knows of the bytes so far. -/
structure Scan where
  nesting : Nat
  string : Bool
  escaped : Bool
  deriving DecidableEq

def Scan.step (depth : Nat) (self : Scan) (c : UInt8) : Except Invalid Scan :=
  if self.string = true then
    if self.escaped = true then .ok { self with escaped := false }
    else if c = 92 then .ok { self with escaped := true }
    else if c = 34 then .ok { self with string := false }
    else .ok self
  else if c = 34 then .ok { self with string := true }
  else if c = 123 ∨ c = 91 then
    if self.nesting + 1 ≤ depth then .ok { self with nesting := self.nesting + 1 } else .error .limit
  else if c = 125 ∨ c = 93 then
    if self.nesting = 0 then .error .input else .ok { self with nesting := self.nesting - 1 }
  else .ok self

def boundedJson (input : String) (bytes depth : Nat) : Except Invalid Unit := do
  denyIf (bytes < input.utf8ByteSize ∨ depth = 0) .limit
  let scan ← (Text.bytes input).foldlM (Scan.step depth) { nesting := 0, string := false, escaped := false }
  denyIf (scan.string = true ∨ scan.nesting ≠ 0) .input

mutual
/-- `Unique::deserialize`: the names of each object are inserted one by one. -/
def unique : Node → Bool
  | .arr xs => visitSeq xs
  | .obj ms => visitMap [] ms
  | _ => true
def visitSeq : List Node → Bool
  | [] => true
  | x :: xs => unique x && visitSeq xs
def visitMap (keys : List String) : List (String × Node) → Bool
  | [] => true
  | (key, x) :: ms => if key ∈ keys then false else unique x && visitMap (key :: keys) ms
end

/-- `serde_json::from_str`. Its reader descends into 127 levels and refuses a number that is not `finite` as a float. -/
def fromStr (finite : List Char → Bool) (input : String) : Option Node := do
  let value ← read input
  if value.depth < 128 ∧ ∀ n ∈ value.numbers, finite n = true then some value else none

def strictJson (finite : List Char → Bool) (input : String) (bytes depth : Nat) : Except Invalid Unit := do
  boundedJson input bytes depth
  match fromStr finite input with
  | none => .error .input
  | some value => denyIf (unique value = false) .input

/-! ## One character after another -/

/-- The guard outside a string. -/
def outside (k : Nat) : Scan := { nesting := k, string := false, escaped := false }

def inside (k : Nat) : Scan := { nesting := k, string := true, escaped := false }

/-- The guard behind a backslash. -/
def escaped (k : Nat) : Scan := { nesting := k, string := true, escaped := true }

theorem step_outside (depth k : Nat) (b : UInt8) : (outside k).step depth b =
    if b = 34 then .ok (inside k)
    else if b = 123 ∨ b = 91 then if k + 1 ≤ depth then .ok (outside (k + 1)) else .error .limit
    else if b = 125 ∨ b = 93 then if k = 0 then .error .input else .ok (outside (k - 1))
    else .ok (outside k) := rfl

theorem step_inside (depth k : Nat) (b : UInt8) : (inside k).step depth b =
    if b = 92 then .ok (escaped k) else if b = 34 then .ok (outside k) else .ok (inside k) := rfl

theorem step_escaped (depth k : Nat) (b : UInt8) : (escaped k).step depth b = .ok (inside k) := rfl

def scan (depth : Nat) (self : Scan) (cs : List Char) : Except Invalid Scan :=
  (cs.flatMap String.utf8EncodeChar).foldlM (Scan.step depth) self

section
variable {depth : Nat}

theorem scan_append (s : Scan) (cs ds : List Char) : scan depth s (cs ++ ds) = scan depth s cs >>= fun s => scan depth s ds := by
  rw [scan, List.flatMap_append, List.foldlM_append]
  rfl

theorem scan_append_ok {s s' : Scan} {cs : List Char} (h : scan depth s cs = .ok s') (ds : List Char) :
    scan depth s (cs ++ ds) = scan depth s' ds := by
  rw [scan_append, h, ok_bind]

theorem scan_ascii (s : Scan) {c : Char} (h : c.toNat < 128) : scan depth s [c] = s.step depth (UInt8.ofNat c.toNat) := by
  rw [scan, List.flatMap_singleton, Text.utf8EncodeChar_ascii h, List.foldlM_cons]
  exact bind_pure _

theorem scan_keep {s : Scan} {cs : List Char} (h : ∀ b ∈ cs.flatMap String.utf8EncodeChar, s.step depth b = .ok s) :
    scan depth s cs = .ok s := by
  rw [scan]
  generalize cs.flatMap String.utf8EncodeChar = bs at h
  induction bs with
  | nil => rfl
  | cons b bs ih =>
    rw [List.foldlM_cons, h b List.mem_cons_self, ok_bind]
    exact ih fun x hx => h x (List.mem_cons_of_mem _ hx)

/-- A character that is no quote and no bracket. -/
def Plain (c : Char) : Prop := c ≠ '"' ∧ c ≠ '\x7b' ∧ c ≠ '[' ∧ c ≠ '\x7d' ∧ c ≠ ']'

instance (c : Char) : Decidable (Plain c) := inferInstanceAs (Decidable (_ ∧ _))

/-- A byte below 128 is the character. -/
theorem byte_ne {c d : Char} {b : UInt8} (hb : b ∈ String.utf8EncodeChar c) (hd : d.toNat < 128) (h : c ≠ d) :
    b ≠ UInt8.ofNat d.toNat := by
  rintro rfl
  have hn : (UInt8.ofNat d.toNat).toNat = d.toNat := UInt8.toNat_ofNat_of_lt' (Nat.lt_trans hd (by decide))
  have := Text.ascii_of_byte hb (by rw [hn]; exact hd)
  rw [hn] at this
  exact h (Char.toNat_inj.mp this)

theorem scan_plain {cs : List Char} (h : ∀ c ∈ cs, Plain c) (k : Nat) : scan depth (outside k) cs = .ok (outside k) := by
  refine scan_keep fun b hb => ?_
  obtain ⟨c, hc, hb⟩ := List.mem_flatMap.mp hb
  obtain ⟨h₁, h₂, h₃, h₄, h₅⟩ := h c hc
  have n₁ : b ≠ 34 := byte_ne hb (by decide) h₁
  have n₂ : ¬(b = 123 ∨ b = 91) := not_or.mpr ⟨byte_ne hb (by decide) h₂, byte_ne hb (by decide) h₃⟩
  have n₃ : ¬(b = 125 ∨ b = 93) := not_or.mpr ⟨byte_ne hb (by decide) h₄, byte_ne hb (by decide) h₅⟩
  rw [step_outside, if_neg n₁, if_neg n₂, if_neg n₃]

/-- A character of a string that is no quote and no backslash. -/
theorem scan_inside {cs : List Char} (h : ∀ c ∈ cs, c ≠ '"' ∧ c ≠ '\\') (k : Nat) : scan depth (inside k) cs = .ok (inside k) := by
  refine scan_keep fun b hb => ?_
  obtain ⟨c, hc, hb⟩ := List.mem_flatMap.mp hb
  have n₁ : b ≠ 34 := byte_ne hb (by decide) (h c hc).1
  have n₂ : b ≠ 92 := byte_ne hb (by decide) (h c hc).2
  rw [step_inside, if_neg n₂, if_neg n₁]

/-- A backslash and one more character. -/
theorem scan_escaped {e : Char} (h : e.toNat < 128) (k : Nat) : scan depth (inside k) ['\\', e] = .ok (inside k) := by
  have hb : scan depth (inside k) ['\\'] = .ok (escaped k) := by
    rw [scan_ascii _ (by decide)]
    rfl
  have he : scan depth (escaped k) [e] = .ok (inside k) := by
    rw [scan_ascii _ h, step_escaped]
  exact (scan_append_ok hb [e]).trans he

/-! ## Elements of a text -/

theorem short_ascii {e : Char} (h : (Json.unescape e).isSome = true) : e.toNat < 128 := by
  unfold Json.unescape at h
  by_contra hn
  have ne : ∀ d : Char, d.toNat < 128 → e ≠ d := fun d hd he => hn (he ▸ hd)
  rw [if_neg (ne _ (by decide)), if_neg (ne _ (by decide)), if_neg (ne _ (by decide)), if_neg (ne _ (by decide)),
    if_neg (ne _ (by decide)), if_neg (ne _ (by decide)), if_neg (ne _ (by decide)), if_neg (ne _ (by decide))] at h
  cases h

theorem hexValue_ne {c : Char} {n : Nat} (h : Json.hexValue c = some n) : c ≠ '"' ∧ c ≠ '\\' := by
  constructor
  · rintro rfl
    cases h
  · rintro rfl
    cases h

theorem hex4_ne {a b c d : Char} (h : (Json.hex4 a b c d).isSome = true) : ∀ x ∈ [a, b, c, d], x ≠ '"' ∧ x ≠ '\\' := by
  obtain ⟨n, h⟩ := Option.isSome_iff_exists.mp h
  simp only [Json.hex4, Option.bind_eq_bind, Option.bind_eq_some_iff] at h
  obtain ⟨n₁, h₁, n₂, h₂, n₃, h₃, n₄, h₄, -⟩ := h
  simp only [List.forall_mem_cons]
  exact ⟨hexValue_ne h₁, hexValue_ne h₂, hexValue_ne h₃, hexValue_ne h₄, by simp⟩

theorem scan_item (i : Item) (k : Nat) : scan depth (inside k) i.chars = .ok (inside k) := by
  cases i with
  | plain c h => exact scan_inside (fun x hx => by rw [List.mem_singleton.mp hx]; exact ⟨h.1, h.2.1⟩) k
  | short e h => exact scan_escaped (short_ascii h) k
  | unit a b c d h =>
    show scan depth (inside k) (['\\', 'u'] ++ [a, b, c, d]) = _
    rw [scan_append_ok (scan_escaped (by decide) k)]
    exact scan_inside (hex4_ne h) k

/-- Behind a string the guard is where it was. -/
theorem scan_quoted (s : List Item) (k : Nat) : scan depth (outside k) (quoted s) = .ok (outside k) := by
  have ho : scan depth (outside k) ['"'] = .ok (inside k) := by
    rw [scan_ascii _ (by decide)]
    rfl
  have hc : scan depth (inside k) ['"'] = .ok (outside k) := by
    rw [scan_ascii _ (by decide)]
    rfl
  have hs : scan depth (inside k) (s.flatMap Item.chars) = .ok (inside k) := by
    induction s with
    | nil => rfl
    | cons i s ih => rw [List.flatMap_cons, scan_append_ok (scan_item i k), ih]
  show scan depth (outside k) (['"'] ++ s.flatMap Item.chars ++ ['"']) = _
  rw [List.append_assoc, scan_append_ok ho, scan_append_ok hs, hc]

theorem plain_space {c : Char} (h : Json.isSpace c = true) : Plain c := by
  simp only [Json.isSpace, Bool.or_eq_true, beq_iff_eq] at h
  obtain ((rfl | rfl) | rfl) | rfl := h <;> decide

theorem scan_space (w : Space) (k : Nat) : scan depth (outside k) w.val = .ok (outside k) :=
  scan_plain (fun _ hc => plain_space (List.all_eq_true.mp w.property _ hc)) k

theorem plain_number {c : Char} (h : isNumberChar c = true) : Plain c := by
  refine ⟨?_, ?_, ?_, ?_, ?_⟩ <;> rintro rfl <;> exact absurd h (by decide)

theorem scan_number (n : Number) (k : Nat) : scan depth (outside k) n.val = .ok (outside k) :=
  scan_plain (fun c hc => plain_number (isNumber_chars n.property c hc)) k

theorem scan_open {c : Char} (h : c = '\x7b' ∨ c = '[') (k : Nat) :
    scan depth (outside k) [c] = if k + 1 ≤ depth then .ok (outside (k + 1)) else .error .limit := by
  obtain rfl | rfl := h <;> (rw [scan_ascii _ (by decide)]; rfl)

theorem scan_close {c : Char} (h : c = '\x7d' ∨ c = ']') (k : Nat) : scan depth (outside (k + 1)) [c] = .ok (outside k) := by
  obtain rfl | rfl := h <;> (rw [scan_ascii _ (by decide)]; rfl)

/-! ## Texts -/

theorem scan_word {cs : List Char} (h : cs.all Char.isLower = true) (k : Nat) : scan depth (outside k) cs = .ok (outside k) := by
  refine scan_plain (fun c hc => ?_) k
  have hl := List.all_eq_true.mp h c hc
  refine ⟨?_, ?_, ?_, ?_, ?_⟩ <;> rintro rfl <;> exact absurd hl (by decide)

/-- A value between whitespace and what follows it. -/
theorem scan_value {t : Doc} {k : Nat} (h : scan depth (outside k) t.chars = if k + t.depth ≤ depth then .ok (outside k) else .error .limit)
    (a b : Space) (r : List Char) : scan depth (outside k) (a.val ++ t.chars ++ b.val ++ r) =
      if k + t.depth ≤ depth then scan depth (outside k) r else .error .limit := by
  rw [List.append_assoc, List.append_assoc, scan_append_ok (scan_space a k), scan_append, h]
  split
  · rw [ok_bind, scan_append_ok (scan_space b k)]
  · rfl

theorem scan_comma (k : Nat) : scan depth (outside k) [','] = .ok (outside k) :=
  scan_plain (fun c hc => by rw [List.mem_singleton.mp hc]; decide) k

theorem scan_colon (k : Nat) : scan depth (outside k) [':'] = .ok (outside k) :=
  scan_plain (fun c hc => by rw [List.mem_singleton.mp hc]; decide) k

/-- A name, its colon and what follows them. -/
theorem scan_name (a : Space) (s : List Item) (b : Space) (k : Nat) (r : List Char) :
    scan depth (outside k) (a.val ++ (quoted s ++ (b.val ++ ([':'] ++ r)))) = scan depth (outside k) r := by
  rw [scan_append_ok (scan_space a k), scan_append_ok (scan_quoted s k), scan_append_ok (scan_space b k), scan_append_ok (scan_colon k)]

mutual
/-- Behind a text the guard is where it was, if the text is not nested too deep. -/
theorem scan_chars : ∀ (t : Doc) (k : Nat), k ≤ depth →
    scan depth (outside k) t.chars = if k + t.depth ≤ depth then .ok (outside k) else .error .limit
  | .null, k, h => by
    rw [Doc.chars, scan_word (by decide)]
    exact (if_pos h).symm
  | .bool true, k, h => by
    rw [Doc.chars, scan_word (by decide)]
    exact (if_pos h).symm
  | .bool false, k, h => by
    rw [Doc.chars, scan_word (by decide)]
    exact (if_pos h).symm
  | .num n, k, h => by
    rw [Doc.chars, scan_number]
    exact (if_pos h).symm
  | .str s, k, h => by
    rw [Doc.chars, scan_quoted]
    exact (if_pos h).symm
  | .arr [] w, k, h => by
    show scan depth (outside k) (['['] ++ elems [] w) = _
    rw [Doc.depth, depths, scan_append, scan_open (.inr rfl)]
    split
    · rename_i hk
      rw [ok_bind, scan_elems [] w k hk, depths]
      exact if_pos hk
    · rfl
  | .arr ((a, x, b) :: xs) w, k, h => by
    show scan depth (outside k) (['['] ++ (a.val ++ x.chars ++ b.val ++ elems xs w)) = _
    rw [Doc.depth, depths, scan_append, scan_open (.inr rfl)]
    split
    · rename_i hk
      rw [ok_bind, scan_value (scan_chars x (k + 1) hk), scan_elems xs w k hk]
      split_ifs <;> first | rfl | omega
    · rw [if_neg (by omega)]
      rfl
  | .obj [] w, k, h => by
    show scan depth (outside k) (['\x7b'] ++ members [] w) = _
    rw [Doc.depth, memberDepths, scan_append, scan_open (.inl rfl)]
    split
    · rename_i hk
      rw [ok_bind, scan_members [] w k hk, memberDepths]
      exact if_pos hk
    · rfl
  | .obj ((a, s, b, c, x, d) :: ms) w, k, h => by
    have e : (Doc.obj ((a, s, b, c, x, d) :: ms) w).chars =
        ['\x7b'] ++ (a.val ++ (quoted s ++ (b.val ++ ([':'] ++ (c.val ++ x.chars ++ d.val ++ members ms w))))) := by
      rw [Doc.chars]
      simp only [List.append_assoc, List.cons_append, List.nil_append]
    rw [e, Doc.depth, memberDepths, scan_append, scan_open (.inl rfl)]
    split
    · rename_i hk
      rw [ok_bind, scan_name, scan_value (scan_chars x (k + 1) hk), scan_members ms w k hk]
      split_ifs <;> first | rfl | omega
    · rw [if_neg (by omega)]
      rfl
/-- From inside an array to behind it. -/
theorem scan_elems : ∀ (xs : List (Space × Doc × Space)) (w : Space) (k : Nat), k + 1 ≤ depth →
    scan depth (outside (k + 1)) (elems xs w) = if k + 1 + depths xs ≤ depth then .ok (outside k) else .error .limit
  | [], w, k, h => by
    rw [elems, depths, scan_append_ok (scan_space w (k + 1)), scan_close (.inr rfl)]
    exact (if_pos h).symm
  | (a, x, b) :: xs, w, k, h => by
    show scan depth (outside (k + 1)) ([','] ++ (a.val ++ x.chars ++ b.val ++ elems xs w)) = _
    rw [depths, scan_append_ok (scan_comma (k + 1)), scan_value (scan_chars x (k + 1) h), scan_elems xs w k h]
    split_ifs <;> first | rfl | omega
/-- From inside an object to behind it. -/
theorem scan_members : ∀ (ms : List (Space × List Item × Space × Space × Doc × Space)) (w : Space) (k : Nat), k + 1 ≤ depth →
    scan depth (outside (k + 1)) (members ms w) = if k + 1 + memberDepths ms ≤ depth then .ok (outside k) else .error .limit
  | [], w, k, h => by
    rw [members, memberDepths, scan_append_ok (scan_space w (k + 1)), scan_close (.inl rfl)]
    exact (if_pos h).symm
  | (a, s, b, c, x, d) :: ms, w, k, h => by
    have e : members ((a, s, b, c, x, d) :: ms) w =
        [','] ++ (a.val ++ (quoted s ++ (b.val ++ ([':'] ++ (c.val ++ x.chars ++ d.val ++ members ms w))))) := by
      rw [members]
      simp only [List.append_assoc, List.cons_append, List.nil_append]
    rw [e, memberDepths, scan_append_ok (scan_comma (k + 1)), scan_name, scan_value (scan_chars x (k + 1) h), scan_members ms w k h]
    split_ifs <;> first | rfl | omega
end

end

/-- A text with whitespace around it. -/
def text (a : Space) (t : Doc) (b : Space) : String := String.ofList (a.val ++ t.chars ++ b.val)

theorem boundedJson_ok (a : Space) (t : Doc) (b : Space) (bytes depth : Nat) : boundedJson (text a t b) bytes depth = .ok () ↔
    (text a t b).utf8ByteSize ≤ bytes ∧ 0 < depth ∧ t.depth ≤ depth := by
  have hs : (Text.bytes (text a t b)).foldlM (Scan.step depth) (outside 0) =
      if 0 + t.depth ≤ depth then .ok (outside 0) else .error .limit := by
    rw [text, Text.bytes_ofList]
    have h := scan_value (scan_chars t 0 (Nat.zero_le depth)) a b []
    rwa [List.append_nil] at h
  rw [boundedJson, check_bind_eq_ok, denyIf_eq_ok, not_or, Nat.not_lt, bind_eq_ok]
  change (_ ∧ _) ∧ (∃ s, (Text.bytes (text a t b)).foldlM (Scan.step depth) (outside 0) = .ok s ∧ _) ↔ _
  rw [hs, Nat.zero_add, and_assoc, Nat.pos_iff_ne_zero]
  refine and_congr_right fun _ => and_congr_right fun _ => ?_
  by_cases h : t.depth ≤ depth
  · rw [if_pos h]
    exact iff_of_true ⟨outside 0, rfl, rfl⟩ h
  · rw [if_neg h]
    exact iff_of_false (fun ⟨_, hs, _⟩ => by cases hs) h

/-! ## Repeated names -/

/-- No object has two names that are equal when they are read. -/
def Distinct : Doc → Prop
  | .obj ms _ => ((names ms).map unescape).Nodup
  | _ => True

theorem nodup_names {ms : List (Space × List Item × Space × Space × Doc × Space)} {vs : List (String × Node)}
    (h : memberNodes ms = some vs) : ((names ms).map unescape).Nodup ↔ (vs.map Prod.fst).Nodup := by
  have hi : Function.Injective fun s : String => some s.toList := fun s s' e => String.toList_inj.mp (Option.some.inj e)
  rw [names_memberNodes h, show (vs.map fun m => some m.1.toList) = (vs.map Prod.fst).map fun s => some s.toList by
    rw [List.map_map]; rfl]
  exact List.nodup_map_iff hi

mutual
theorem unique_node : ∀ (t : Doc) {v : Node}, t.node = some v → (unique v = true ↔ t.All Distinct)
  | .null, v, h => by cases h; exact iff_of_true rfl trivial
  | .bool b, v, h => by cases h; exact iff_of_true rfl trivial
  | .num n, v, h => by cases h; exact iff_of_true rfl trivial
  | .str s, v, h => by
    simp only [Doc.node, Option.map_eq_some_iff] at h
    obtain ⟨s, -, rfl⟩ := h
    exact iff_of_true rfl trivial
  | .arr xs w, v, h => by
    simp only [Doc.node, Option.map_eq_some_iff] at h
    obtain ⟨vs, hv, rfl⟩ := h
    rw [unique, Doc.All, visitSeq_nodes xs hv]
    exact (iff_of_eq (true_and _)).symm
  | .obj ms w, v, h => by
    simp only [Doc.node, Option.map_eq_some_iff] at h
    obtain ⟨vs, hv, rfl⟩ := h
    rw [unique, Doc.All, visitMap_nodes ms hv []]
    rw [Distinct, nodup_names hv]
    simp
theorem visitSeq_nodes : ∀ (xs : List (Space × Doc × Space)) {vs : List Node}, nodes xs = some vs →
    (visitSeq vs = true ↔ AllElems Distinct xs)
  | [], vs, h => by cases h; exact iff_of_true rfl trivial
  | (a, x, b) :: xs, vs, h => by
    simp only [nodes, Option.bind_eq_some_iff, Option.map_eq_some_iff] at h
    obtain ⟨v, hv, ws, hw, rfl⟩ := h
    rw [visitSeq, AllElems, Bool.and_eq_true, unique_node x hv, visitSeq_nodes xs hw]
/-- With the names that were inserted before. -/
theorem visitMap_nodes : ∀ (ms : List (Space × List Item × Space × Space × Doc × Space)) {vs : List (String × Node)},
    memberNodes ms = some vs → ∀ keys : List String, (visitMap keys vs = true ↔
      ((vs.map Prod.fst).Nodup ∧ ∀ k ∈ vs.map Prod.fst, k ∉ keys) ∧ AllMembers Distinct ms)
  | [], vs, h, keys => by
    cases h
    exact iff_of_true rfl ⟨⟨List.nodup_nil, by simp⟩, trivial⟩
  | (a, k, b, c, x, d) :: ms, vs, h, keys => by
    simp only [memberNodes, Option.bind_eq_some_iff, Option.map_eq_some_iff] at h
    obtain ⟨s, -, v, hv, ws, hw, rfl⟩ := h
    rw [visitMap, AllMembers, ← unique_node x hv, List.map_cons, List.nodup_cons, List.forall_mem_cons]
    have ih := visitMap_nodes ms hw (String.ofList s :: keys)
    split
    · rename_i hk
      exact iff_of_false Bool.false_ne_true fun h => h.1.2.1 hk
    · rename_i hk
      rw [Bool.and_eq_true, ih]
      simp only [List.mem_cons, not_or]
      constructor
      · rintro ⟨hu, ⟨hn, hd⟩, hm⟩
        exact ⟨⟨⟨fun hc => (hd _ hc).1 rfl, hn⟩, hk, fun x hx => (hd x hx).2⟩, hu, hm⟩
      · rintro ⟨⟨⟨hc, hn⟩, -, hd⟩, hu, hm⟩
        exact ⟨hu, ⟨hn, fun x hx => ⟨fun e => hc (e ▸ hx), hd x hx⟩⟩, hm⟩
end

/-- What `serde_json` reads of the texts of the grammar. -/
theorem fromStr_some (finite : List Char → Bool) (a : Space) (t : Doc) (b : Space) {v : Node} :
    fromStr finite (text a t b) = some v ↔ t.node = some v ∧ t.depth < 128 ∧ t.All (Doc.NumberHas fun n => finite n = true) := by
  simp only [fromStr, text, read_chars, Option.bind_eq_bind, Option.bind_eq_some_iff, Option.ite_none_right_eq_some, Option.some.injEq]
  constructor
  · rintro ⟨v, hv, ⟨hd, hn⟩, rfl⟩
    exact ⟨hv, depth_node t hv ▸ hd, (numbers_node _ t hv).mp hn⟩
  · rintro ⟨hv, hd, hn⟩
    exact ⟨v, hv, ⟨(depth_node t hv).symm ▸ hd, (numbers_node _ t hv).mpr hn⟩, rfl⟩

/-- For every text of the grammar: the bounded guard accepts it if its size and its nesting are within the limits and the limit of
the nesting is not zero; the strict guard if in addition the reader can read it and no object in it has a repeated name. -/
theorem json_guards (finite : List Char → Bool) (a : Space) (t : Doc) (b : Space) (bytes depth : Nat) :
    (boundedJson (text a t b) bytes depth = .ok () ↔ (text a t b).utf8ByteSize ≤ bytes ∧ 0 < depth ∧ t.depth ≤ depth) ∧
      (strictJson finite (text a t b) bytes depth = .ok () ↔ boundedJson (text a t b) bytes depth = .ok () ∧
        (t.depth < 128 ∧ t.All (Doc.NumberHas fun n => finite n = true) ∧ t.All Doc.Readable) ∧ t.All Distinct) := by
  refine ⟨boundedJson_ok a t b bytes depth, ?_⟩
  rw [strictJson, check_bind_eq_ok]
  refine and_congr_right fun _ => ?_
  constructor
  · intro h
    split at h
    · cases h
    · rename_i v hv
      obtain ⟨hn, hd, hf⟩ := (fromStr_some finite a t b).mp hv
      rw [denyIf_eq_ok, Bool.not_eq_false] at h
      exact ⟨⟨hd, hf, (isSome_node t).mp (by rw [hn]; rfl)⟩, (unique_node t hn).mp h⟩
  · rintro ⟨⟨hd, hf, hr⟩, hu⟩
    obtain ⟨v, hn⟩ := Option.isSome_iff_exists.mp ((isSome_node t).mpr hr)
    rw [(fromStr_some finite a t b).mpr ⟨hn, hd, hf⟩]
    simp only [denyIf_eq_ok, Bool.not_eq_false]
    exact (unique_node t hn).mpr hu

def blank : Space := ⟨[], rfl⟩

/-- The first half of a surrogate pair. -/
def half : Doc := .str [.unit 'd' '8' '0' '0' (by decide)]

/-- `null` is refused where no nesting is allowed, and half of a surrogate pair by the reader. -/
theorem json_guards_refuse : (boundedJson (text blank .null blank) 4 0 = .error .limit ∧
      (text blank .null blank).utf8ByteSize ≤ 4 ∧ Doc.null.depth ≤ 0) ∧
    ∀ finite, strictJson finite (text blank half blank) 8 1 = .error .input ∧
      boundedJson (text blank half blank) 8 1 = .ok () ∧ half.All Distinct := by
  refine ⟨⟨by decide +kernel, by decide +kernel, Nat.le_refl 0⟩, fun finite => ?_⟩
  have hb : boundedJson (text blank half blank) 8 1 = .ok () := by decide +kernel
  refine ⟨?_, hb, trivial⟩
  rw [strictJson, hb, ok_bind, fromStr, text, read_chars]
  rfl

end Mikaki.Webauthn
