import Mikaki.Lib.JsonText

/-!
# Every text is read

`read_chars`: whatever whitespace, escapes and number forms a text of the
grammar uses, the reader returns its value.
-/

namespace JsonText

/-! ## Whitespace -/

@[simp] theorem skipSpace_space (w : Space) (cs : List Char) : Json.skipSpace (w.val ++ cs) = Json.skipSpace cs := by
  obtain ⟨w, hw⟩ := w
  induction w with
  | nil => rfl
  | cons c w ih =>
    rw [List.all_cons, Bool.and_eq_true] at hw
    rw [List.cons_append, Json.skipSpace, if_pos hw.1]
    exact ih hw.2

theorem skipSpace_space_nil (w : Space) : Json.skipSpace w.val = [] := by
  have := skipSpace_space w []
  rwa [List.append_nil] at this

/-! ## Strings -/

theorem short_ne {e : Char} (h : (Json.unescape e).isSome = true) : e ≠ 'u' := by
  rintro rfl
  exact absurd h (by decide)

/-- No `\\u` escape begins with another element, or with the closing quote. -/
theorem not_unit {is : List Item} (h : ∀ a b c d h is', is = .unit a b c d h :: is' → False) (r : List Char) :
    ∀ a b c d cs, is.flatMap Item.chars ++ '"' :: r = '\\' :: 'u' :: a :: b :: c :: d :: cs → False := by
  intro a b c d cs e
  match is with
  | [] => cases e
  | .plain x hx :: is =>
    rw [List.flatMap_cons, Item.chars, List.append_assoc, List.cons_append] at e
    exact hx.2.1 (List.cons.inj e).1
  | .short x hx :: is =>
    rw [List.flatMap_cons, Item.chars, List.append_assoc, List.cons_append, List.cons_append] at e
    exact short_ne hx (List.cons.inj (List.cons.inj e).2).1
  | .unit _ _ _ _ hx :: is => exact h _ _ _ _ hx is rfl

theorem map_cons_map {x : Char} {r : List Char} (o : Option (List Char)) :
    ((o.map fun s => (s, r)).map fun p : List Char × List Char => (x :: p.1, p.2)) = (o.map (x :: ·)).map fun s => (s, r) := by
  cases o <;> rfl

/-- What is between the quotes, unescaped. -/
theorem parseChars_items (s : List Item) (r : List Char) :
    Json.parseChars (s.flatMap Item.chars ++ '"' :: r) = (unescape s).map fun s => (s, r) := by
  induction s using unescape.induct with
  | case1 => rfl
  | case2 c h is ih =>
    rw [List.flatMap_cons, Item.chars, List.append_assoc, List.singleton_append, Json.parseChars_plain h.1 h.2.1 h.2.2, ih, unescape,
      map_cons_map]
  | case3 e h is ih =>
    obtain ⟨x, hx⟩ := Option.isSome_iff_exists.mp h
    rw [List.flatMap_cons, Item.chars, List.append_assoc, List.cons_append, List.singleton_append,
      Json.parseChars_escaped (short_ne h) hx, ih, unescape, hx, Option.bind_some, map_cons_map]
  | case4 a b c d h is hn =>
    rw [hn] at h
    cases h
  | case5 a b c d h n hn hs a' b' c' d' h' is hn' =>
    rw [hn'] at h'
    cases h'
  | case6 a b c d h n hn hs a' b' c' d' h' is m hm hs' ih =>
    simp only [List.flatMap_cons, Item.chars, List.cons_append, List.nil_append, Json.parseChars, unescape, hn, hm, hs, hs', and_self,
      if_true, ih]
    cases Json.unit (0x10000 + (n - 0xd800) * 1024 + (m - 0xdc00)) with
    | none => rfl
    | some x => exact map_cons_map _
  | case7 a b c d h n hn hs a' b' c' d' h' is m hm hs' =>
    simp only [List.flatMap_cons, Item.chars, List.cons_append, List.nil_append, Json.parseChars, unescape, hn, hm, hs, hs', and_self,
      if_true, if_false]
    rfl
  | case8 a b c d h is n hn hs hu =>
    rw [List.flatMap_cons, Item.chars, List.append_assoc]
    simp only [List.cons_append, List.nil_append, Json.parseChars, unescape, hn, hs, and_self, if_true]
    split
    · rename_i a b c d cs e
      exact absurd e (not_unit hu r a b c d cs)
    · rfl
  | case9 a b c d h is n hn hs ih =>
    simp only [List.flatMap_cons, Item.chars, List.cons_append, List.nil_append, Json.parseChars, unescape, hn, hs, if_false, ih]
    cases Json.unit n with
    | none => rfl
    | some x => exact map_cons_map _

/-! ## Numbers -/

theorem isDigits_chars {cs : List Char} (h : isDigits cs = true) : ∀ c ∈ cs, isNumberChar c = true := by
  rw [isDigits, Bool.and_eq_true, List.all_eq_true] at h
  intro c hc
  simp only [isNumberChar, h.2 c hc, Bool.true_or]

theorem isPower_chars {cs : List Char} (h : isPower cs = true) : ∀ c ∈ cs, isNumberChar c = true := by
  unfold isPower at h
  split at h
  · exact List.forall_mem_cons.mpr ⟨rfl, isDigits_chars h⟩
  · exact List.forall_mem_cons.mpr ⟨rfl, isDigits_chars h⟩
  · exact isDigits_chars h

theorem isExponent_chars {cs : List Char} (h : isExponent cs = true) : ∀ c ∈ cs, isNumberChar c = true := by
  cases cs with
  | nil => simp
  | cons c cs =>
    simp only [isExponent, Bool.and_eq_true, Bool.or_eq_true] at h
    refine List.forall_mem_cons.mpr ⟨?_, isPower_chars h.2⟩
    simp only [isNumberChar, Bool.or_eq_true]
    tauto

/-- Digits and what follows them. -/
theorem chars_of_split {cs : List Char} (h : isDigits (cs.takeWhile Char.isDigit) = true)
    (hr : ∀ c ∈ cs.dropWhile Char.isDigit, isNumberChar c = true) : ∀ c ∈ cs, isNumberChar c = true := by
  intro c hc
  rw [← List.takeWhile_append_dropWhile (p := Char.isDigit) (l := cs), List.mem_append] at hc
  exact hc.elim (isDigits_chars h c) (hr c)

theorem isFraction_chars {cs : List Char} (h : isFraction cs = true) : ∀ c ∈ cs, isNumberChar c = true := by
  unfold isFraction at h
  split at h
  · rw [Bool.and_eq_true] at h
    exact List.forall_mem_cons.mpr ⟨rfl, chars_of_split h.1 (isExponent_chars h.2)⟩
  · exact isExponent_chars h

theorem isUnsigned_chars {cs : List Char} (h : isUnsigned cs = true) : ∀ c ∈ cs, isNumberChar c = true := by
  simp only [isUnsigned, Bool.and_eq_true] at h
  exact chars_of_split h.1.1 (isFraction_chars h.2)

theorem isNumber_chars {cs : List Char} (h : isNumber cs = true) : ∀ c ∈ cs, isNumberChar c = true := by
  unfold isNumber at h
  split at h
  · exact List.forall_mem_cons.mpr ⟨rfl, isUnsigned_chars h⟩
  · exact isUnsigned_chars h

/-- A number begins with a digit or a sign. -/
theorem isNumber_head {cs : List Char} (h : isNumber cs = true) : ∃ c r, cs = c :: r ∧ (c = '-' ∨ c.isDigit = true) := by
  unfold isNumber at h
  split at h
  · exact ⟨_, _, rfl, .inl rfl⟩
  · simp only [isUnsigned, isDigits, Bool.and_eq_true] at h
    cases cs with
    | nil => exact absurd h.1.1.1 (by decide)
    | cons c r =>
      refine ⟨c, r, rfl, .inr ?_⟩
      by_contra hd
      rw [List.takeWhile_cons_of_neg hd] at h
      exact absurd h.1.1.1 (by decide)

/-- What follows does not go on with a number. -/
def Ends (r : List Char) : Prop := ∀ c ∈ r.head?, isNumberChar c = false

theorem not_numberChar_space {c : Char} (h : Json.isSpace c = true) : isNumberChar c = false := by
  simp only [Json.isSpace, Bool.or_eq_true, beq_iff_eq] at h
  obtain ((rfl | rfl) | rfl) | rfl := h <;> decide

theorem Ends.space (w : Space) {r : List Char} (h : Ends r) : Ends (w.val ++ r) := by
  obtain ⟨w, hw⟩ := w
  cases w with
  | nil => exact h
  | cons c w =>
    rw [List.all_cons, Bool.and_eq_true] at hw
    intro x hx
    cases hx
    exact not_numberChar_space hw.1

theorem ends_elems (xs : List (Space × Doc × Space)) (w : Space) (r : List Char) : Ends (elems xs w ++ r) := by
  cases xs with
  | nil =>
    rw [elems, List.append_assoc]
    refine Ends.space w ?_
    intro c hc
    cases hc
    decide
  | cons x xs =>
    obtain ⟨a, x, b⟩ := x
    rw [elems]
    intro c hc
    cases hc
    decide

theorem ends_members (ms : List (Space × List Item × Space × Space × Doc × Space)) (w : Space) (r : List Char) :
    Ends (members ms w ++ r) := by
  cases ms with
  | nil =>
    rw [members, List.append_assoc]
    refine Ends.space w ?_
    intro c hc
    cases hc
    decide
  | cons m ms =>
    obtain ⟨a, k, b, c, x, d⟩ := m
    rw [members]
    intro c hc
    cases hc
    decide

theorem parseNumber_append (n : Number) {r : List Char} (hr : Ends r) : parseNumber (n.val ++ r) = some (.num n.val, r) := by
  have hn := isNumber_chars n.property
  have ht : r.takeWhile isNumberChar = [] ∧ r.dropWhile isNumberChar = r := by
    cases r with
    | nil => exact ⟨rfl, rfl⟩
    | cons c r =>
      have hc : ¬isNumberChar c = true := by rw [hr c rfl]; decide
      exact ⟨List.takeWhile_cons_of_neg hc, List.dropWhile_cons_of_neg hc⟩
  rw [parseNumber, List.takeWhile_append_of_pos hn, List.dropWhile_append_of_pos hn, ht.1, ht.2, List.append_nil, if_pos n.property]

/-! ## Values -/

theorem numberHead_ne {c : Char} (h : c = '-' ∨ c.isDigit = true) :
    c ≠ 'n' ∧ c ≠ 't' ∧ c ≠ 'f' ∧ c ≠ '"' ∧ c ≠ '[' ∧ c ≠ '{' ∧ c ≠ ']' ∧ Json.isSpace c = false := by
  obtain rfl | h := h
  · decide
  · exact Json.digit_ne h

theorem chars_head (t : Doc) : ∃ c cs, t.chars = c :: cs ∧ Json.isSpace c = false ∧ c ≠ ']' := by
  cases t with
  | null => exact ⟨_, _, by rw [Doc.chars], by decide, by decide⟩
  | bool b => cases b <;> exact ⟨_, _, by rw [Doc.chars], by decide, by decide⟩
  | num n =>
    obtain ⟨c, r, h, hc⟩ := isNumber_head n.property
    obtain ⟨-, -, -, -, -, -, hb, hs⟩ := numberHead_ne hc
    exact ⟨c, r, by rw [Doc.chars, h], hs, hb⟩
  | str s => exact ⟨'"', _, by rw [Doc.chars]; rfl, by decide, by decide⟩
  | arr xs w => rcases xs with - | ⟨⟨a, x, b⟩, xs⟩ <;> exact ⟨'[', _, Doc.chars.eq_def _, by decide, by decide⟩
  | obj ms w => rcases ms with - | ⟨⟨a, k, b, c, x, d⟩, ms⟩ <;> exact ⟨'{', _, Doc.chars.eq_def _, by decide, by decide⟩

theorem skipSpace_chars (t : Doc) (r : List Char) : Json.skipSpace (t.chars ++ r) = t.chars ++ r := by
  obtain ⟨c, cs, h, hs, -⟩ := chars_head t
  rw [h, List.cons_append, Json.skipSpace_cons hs]

theorem parseValue_space (n : Nat) (w : Space) (cs : List Char) : parseValue n (w.val ++ cs) = parseValue n cs := by
  cases n with
  | zero => rw [parseValue, parseValue]
  | succ n => rw [parseValue, parseValue, skipSpace_space]

theorem parseElems_space (n : Nat) (w : Space) (cs : List Char) : parseElems n (w.val ++ cs) = parseElems n cs := by
  cases n with
  | zero => rw [parseElems, parseElems]
  | succ n => rw [parseElems, parseElems, parseValue_space]

theorem parseMembers_space (n : Nat) (w : Space) (cs : List Char) : parseMembers n (w.val ++ cs) = parseMembers n cs := by
  cases n with
  | zero => rw [parseMembers, parseMembers]
  | succ n => rw [parseMembers, parseMembers, skipSpace_space]

theorem length_pos (t : Doc) : 0 < t.chars.length := by
  obtain ⟨c, cs, h, -⟩ := chars_head t
  rw [h]
  exact Nat.succ_pos _

mutual
theorem parseValue_chars : ∀ (t : Doc) (n : Nat) (r : List Char), t.chars.length ≤ n → Ends r →
    parseValue n (t.chars ++ r) = t.node.map fun v => (v, r)
  | .null, n + 1, r, _, _ => by rw [Doc.chars]; rfl
  | .bool true, n + 1, r, _, _ => by rw [Doc.chars]; rfl
  | .bool false, n + 1, r, _, _ => by rw [Doc.chars]; rfl
  | .num m, n + 1, r, _, hr => by
    have hs := skipSpace_chars (.num m) r
    have hp := parseNumber_append m hr
    obtain ⟨c, cs, h, hc⟩ := isNumber_head m.property
    obtain ⟨h1, h2, h3, h4, h5, h6, -⟩ := numberHead_ne hc
    rw [Doc.chars] at hs ⊢
    rw [Doc.node, Option.map_some, ← hp, parseValue, hs, h]
    split <;> simp_all
  | .str s, n + 1, r, _, _ => by
    rw [Doc.chars, quoted, List.append_assoc, List.singleton_append, List.cons_append, parseValue, Json.skipSpace_cons (by decide)]
    simp only [parseChars_items, Doc.node]
    cases unescape s <;> rfl
  | .arr [] w, n + 1, r, _, _ => by
    rw [Doc.chars, List.append_assoc, List.cons_append, parseValue, Json.skipSpace_cons (by decide)]
    simp only [skipSpace_space, List.singleton_append, Json.skipSpace_cons (show Json.isSpace ']' = false by decide)]
    rfl
  | .arr ((a, x, b) :: xs) w, n + 1, r, h, _ => by
    have hn : (elems ((a, x, b) :: xs) w).length ≤ n + 1 := by
      rw [Doc.chars] at h
      rw [elems]
      exact h
    have ih := parseElems_chars a x b xs w n r hn
    have hs := skipSpace_chars x (b.val ++ (elems xs w ++ r))
    obtain ⟨c, cs, hc, -, hb⟩ := chars_head x
    rw [Doc.chars, parseValue]
    simp only [List.append_assoc, List.cons_append]
    rw [Json.skipSpace_cons (by decide)]
    simp only [skipSpace_space, hs]
    rw [hc] at ih ⊢
    simp only [List.cons_append] at ih ⊢
    split
    · rename_i e
      exact absurd (List.cons.inj e).1 hb
    · rw [ih, Doc.node, Option.map_map, Option.map_map]
      rfl
  | .obj [] w, n + 1, r, _, _ => by
    rw [Doc.chars, List.append_assoc, List.cons_append, parseValue, Json.skipSpace_cons (by decide)]
    simp only [skipSpace_space, List.singleton_append, Json.skipSpace_cons (show Json.isSpace '\x7d' = false by decide)]
    rfl
  | .obj ((a, k, b, c, x, d) :: ms) w, n + 1, r, h, _ => by
    have hn : (members ((a, k, b, c, x, d) :: ms) w).length ≤ n + 1 := by
      rw [Doc.chars] at h
      rw [members]
      exact h
    have ih := parseMembers_chars a k b c x d ms w n r hn
    rw [Doc.chars, parseValue]
    simp only [quoted, List.append_assoc, List.cons_append] at ih ⊢
    rw [Json.skipSpace_cons (by decide)]
    simp only [skipSpace_space, Json.skipSpace_cons (show Json.isSpace '"' = false by decide), Doc.node]
    refine (congrArg (Option.map fun p => (Node.obj p.1, p.2)) ih).trans ?_
    rw [Option.map_map, Option.map_map]
    rfl
  | t, 0, _, h, _ => absurd h (Nat.not_le.mpr (length_pos t))

theorem parseElems_chars : ∀ (a : Space) (x : Doc) (b : Space) (xs : List (Space × Doc × Space)) (w : Space) (n : Nat) (r : List Char),
    (elems ((a, x, b) :: xs) w).length ≤ n + 1 →
    parseElems n (x.chars ++ (b.val ++ (elems xs w ++ r))) = (nodes ((a, x, b) :: xs)).map fun vs => (vs, r)
  | a, x, b, [], w, n + 1, r, h => by
    simp only [elems, List.length_append, List.length_cons, List.length_nil] at h
    rw [parseElems, parseValue_chars x n _ (by omega) ((ends_elems [] w r).space b), elems]
    simp only [nodes]
    cases x.node with
    | none => rfl
    | some v =>
      simp only [Option.map_some, Option.bind_some, List.append_assoc, skipSpace_space, List.singleton_append,
        Json.skipSpace_cons (show Json.isSpace ']' = false by decide)]
  | a, x, b, (a', y, b') :: ys, w, n + 1, r, h => by
    have hx := length_pos x
    have hn : (elems ((a', y, b') :: ys) w).length ≤ n + 1 := by
      rw [elems] at h
      simp only [List.length_append, List.length_cons] at h
      omega
    have ih := parseElems_chars a' y b' ys w n r hn
    have hl : x.chars.length ≤ n := by
      rw [elems, elems] at h
      simp only [List.length_append, List.length_cons] at h
      omega
    rw [parseElems, parseValue_chars x n _ hl ((ends_elems _ w r).space b), elems, nodes]
    cases x.node with
    | none => rfl
    | some v =>
      simp only [Option.map_some, Option.bind_some, List.append_assoc, List.cons_append, skipSpace_space,
        Json.skipSpace_cons (show Json.isSpace ',' = false by decide), parseElems_space]
      rw [ih, Option.map_map, Option.map_map]
      rfl
  | a, x, b, xs, w, 0, r, h => by
    have hx := length_pos x
    rw [elems] at h
    simp only [List.length_append, List.length_cons] at h
    omega

theorem parseMembers_chars : ∀ (a : Space) (k : List Item) (b c : Space) (x : Doc) (d : Space)
    (ms : List (Space × List Item × Space × Space × Doc × Space)) (w : Space) (n : Nat) (r : List Char),
    (members ((a, k, b, c, x, d) :: ms) w).length ≤ n + 1 →
    parseMembers n (quoted k ++ (b.val ++ (':' :: (c.val ++ (x.chars ++ (d.val ++ (members ms w ++ r))))))) =
      (memberNodes ((a, k, b, c, x, d) :: ms)).map fun vs => (vs, r)
  | a, k, b, c, x, d, [], w, n + 1, r, h => by
    have hl : x.chars.length ≤ n := by
      rw [members, members] at h
      simp only [List.length_append, List.length_cons] at h
      omega
    have hv := parseValue_chars x n _ hl ((ends_members [] w r).space d)
    rw [parseMembers, quoted, List.append_assoc, List.cons_append, Json.skipSpace_cons (by decide)]
    simp only [List.singleton_append, parseChars_items, memberNodes]
    cases unescape k with
    | none => rfl
    | some k =>
      simp only [Option.map_some, Option.bind_some, skipSpace_space, Json.skipSpace_cons (show Json.isSpace ':' = false by decide),
        parseValue_space, hv]
      cases x.node with
      | none => rfl
      | some v =>
        rw [members]
        simp only [Option.map_some, Option.bind_some, List.append_assoc, skipSpace_space, List.singleton_append,
          Json.skipSpace_cons (show Json.isSpace '\x7d' = false by decide)]
  | a, k, b, c, x, d, (a', k', b', c', y, d') :: ms, w, n + 1, r, h => by
    have hn : (members ((a', k', b', c', y, d') :: ms) w).length ≤ n + 1 := by
      rw [members] at h
      simp only [List.length_append, List.length_cons] at h
      omega
    have ih := parseMembers_chars a' k' b' c' y d' ms w n r hn
    have hl : x.chars.length ≤ n := by
      rw [members, members] at h
      simp only [List.length_append, List.length_cons] at h
      omega
    have hv := parseValue_chars x n _ hl ((ends_members ((a', k', b', c', y, d') :: ms) w r).space d)
    rw [parseMembers, quoted, List.append_assoc, List.cons_append, Json.skipSpace_cons (by decide), memberNodes]
    simp only [List.singleton_append, parseChars_items]
    cases unescape k with
    | none => rfl
    | some k =>
      simp only [Option.map_some, Option.bind_some, skipSpace_space, Json.skipSpace_cons (show Json.isSpace ':' = false by decide),
        parseValue_space, hv]
      cases x.node with
      | none => rfl
      | some v =>
        rw [members]
        simp only [Option.map_some, Option.bind_some, List.append_assoc, List.cons_append, skipSpace_space,
          Json.skipSpace_cons (show Json.isSpace ',' = false by decide), parseMembers_space]
        rw [ih, Option.map_map, Option.map_map]
        rfl
  | a, k, b, c, x, d, ms, w, 0, r, h => by
    have hx := length_pos x
    rw [members] at h
    simp only [List.length_append, List.length_cons] at h
    omega
end

/-- The reader returns the value of any text, with whitespace around it. -/
theorem read_chars (a : Space) (t : Doc) (b : Space) : read (String.ofList (a.val ++ t.chars ++ b.val)) = t.node := by
  have hb : Ends b.val := by
    have h := Ends.space b (r := []) fun c hc => by cases hc
    rwa [List.append_nil] at h
  have h := parseValue_chars t ((a.val ++ t.chars ++ b.val).length + 1) b.val (by simp only [List.length_append]; omega) hb
  rw [read, String.toList_ofList, List.append_assoc, parseValue_space, ← List.append_assoc, h]
  cases t.node with
  | none => rfl
  | some v => simp only [Option.map_some, skipSpace_space_nil, if_true]

/-! ## Values of texts -/

theorem names_cons (a : Space) (k : List Item) (b c : Space) (x : Doc) (d : Space)
    (ms : List (Space × List Item × Space × Space × Doc × Space)) : names ((a, k, b, c, x, d) :: ms) = k :: names ms := rfl

mutual
/-- A text has a value if its strings are strings of characters. -/
theorem isSome_node : ∀ t : Doc, t.node.isSome = true ↔ t.All Doc.Readable
  | .null => by simp [Doc.node, Doc.All, Doc.Readable]
  | .bool b => by simp [Doc.node, Doc.All, Doc.Readable]
  | .num n => by simp [Doc.node, Doc.All, Doc.Readable]
  | .str s => by simp [Doc.node, Doc.All, Doc.Readable]
  | .arr xs w => by
    rw [Doc.node, Option.isSome_map, isSome_nodes xs, Doc.All]
    exact (iff_of_eq (true_and _)).symm
  | .obj ms w => by
    rw [Doc.node, Option.isSome_map, isSome_memberNodes ms, Doc.All, Doc.Readable]
theorem isSome_nodes : ∀ xs : List (Space × Doc × Space), (nodes xs).isSome = true ↔ AllElems Doc.Readable xs
  | [] => by simp [nodes, AllElems]
  | (a, x, b) :: xs => by
    rw [nodes, AllElems, ← isSome_node x, ← isSome_nodes xs]
    cases x.node <;> simp
theorem isSome_memberNodes : ∀ ms : List (Space × List Item × Space × Space × Doc × Space),
    (memberNodes ms).isSome = true ↔ (∀ k ∈ names ms, (unescape k).isSome = true) ∧ AllMembers Doc.Readable ms
  | [] => by simp [memberNodes, AllMembers, names]
  | (a, k, b, c, x, d) :: ms => by
    have ih := isSome_memberNodes ms
    rw [memberNodes, AllMembers, ← isSome_node x, names_cons, List.forall_mem_cons]
    cases unescape k with
    | none => exact iff_of_false Bool.false_ne_true fun h => absurd h.1.1 Bool.false_ne_true
    | some k =>
      cases x.node with
      | none => exact iff_of_false Bool.false_ne_true fun h => absurd h.2.1 Bool.false_ne_true
      | some v =>
        rw [Option.bind_some, Option.bind_some, Option.isSome_map, ih]
        exact ⟨fun h => ⟨⟨rfl, h.1⟩, rfl, h.2⟩, fun h => ⟨h.1.2, h.2.2⟩⟩
end

mutual
theorem depth_node : ∀ (t : Doc) {v : Node}, t.node = some v → v.depth = t.depth
  | .null, v, h => by cases h; rfl
  | .bool b, v, h => by cases h; rfl
  | .num n, v, h => by cases h; rfl
  | .str s, v, h => by
    simp only [Doc.node, Option.map_eq_some_iff] at h
    obtain ⟨s, -, rfl⟩ := h
    rfl
  | .arr xs w, v, h => by
    simp only [Doc.node, Option.map_eq_some_iff] at h
    obtain ⟨vs, hv, rfl⟩ := h
    rw [Node.depth, Doc.depth, depth_nodes xs hv]
  | .obj ms w, v, h => by
    simp only [Doc.node, Option.map_eq_some_iff] at h
    obtain ⟨vs, hv, rfl⟩ := h
    rw [Node.depth, Doc.depth, depth_memberNodes ms hv]
theorem depth_nodes : ∀ (xs : List (Space × Doc × Space)) {vs : List Node}, nodes xs = some vs → nodeDepths vs = depths xs
  | [], vs, h => by cases h; rfl
  | (a, x, b) :: xs, vs, h => by
    simp only [nodes, Option.bind_eq_some_iff, Option.map_eq_some_iff] at h
    obtain ⟨v, hv, ws, hw, rfl⟩ := h
    rw [nodeDepths, depths, depth_node x hv, depth_nodes xs hw]
theorem depth_memberNodes : ∀ (ms : List (Space × List Item × Space × Space × Doc × Space)) {vs : List (String × Node)},
    memberNodes ms = some vs → memberNodeDepths vs = memberDepths ms
  | [], vs, h => by cases h; rfl
  | (a, k, b, c, x, d) :: ms, vs, h => by
    simp only [memberNodes, Option.bind_eq_some_iff, Option.map_eq_some_iff] at h
    obtain ⟨s, -, v, hv, ws, hw, rfl⟩ := h
    rw [memberNodeDepths, memberDepths, depth_node x hv, depth_memberNodes ms hw]
end

/-- A number of a text has a property. -/
def Doc.NumberHas (p : List Char → Prop) : Doc → Prop
  | .num n => p n.val
  | _ => True

mutual
theorem numbers_node (p : List Char → Prop) : ∀ (t : Doc) {v : Node}, t.node = some v →
    ((∀ n ∈ v.numbers, p n) ↔ t.All (Doc.NumberHas p))
  | .null, v, h => by cases h; simp [Node.numbers, Doc.All, Doc.NumberHas]
  | .bool b, v, h => by cases h; simp [Node.numbers, Doc.All, Doc.NumberHas]
  | .num n, v, h => by cases h; simp [Node.numbers, Doc.All, Doc.NumberHas]
  | .str s, v, h => by
    simp only [Doc.node, Option.map_eq_some_iff] at h
    obtain ⟨s, -, rfl⟩ := h
    simp [Node.numbers, Doc.All, Doc.NumberHas]
  | .arr xs w, v, h => by
    simp only [Doc.node, Option.map_eq_some_iff] at h
    obtain ⟨vs, hv, rfl⟩ := h
    rw [Node.numbers, Doc.All, numbers_nodes p xs hv]
    exact (iff_of_eq (true_and _)).symm
  | .obj ms w, v, h => by
    simp only [Doc.node, Option.map_eq_some_iff] at h
    obtain ⟨vs, hv, rfl⟩ := h
    rw [Node.numbers, Doc.All, numbers_memberNodes p ms hv]
    exact (iff_of_eq (true_and _)).symm
theorem numbers_nodes (p : List Char → Prop) : ∀ (xs : List (Space × Doc × Space)) {vs : List Node}, nodes xs = some vs →
    ((∀ n ∈ nodeNumbers vs, p n) ↔ AllElems (Doc.NumberHas p) xs)
  | [], vs, h => by cases h; simp [nodeNumbers, AllElems]
  | (a, x, b) :: xs, vs, h => by
    simp only [nodes, Option.bind_eq_some_iff, Option.map_eq_some_iff] at h
    obtain ⟨v, hv, ws, hw, rfl⟩ := h
    rw [nodeNumbers, AllElems, List.forall_mem_append, numbers_node p x hv, numbers_nodes p xs hw]
theorem numbers_memberNodes (p : List Char → Prop) : ∀ (ms : List (Space × List Item × Space × Space × Doc × Space))
    {vs : List (String × Node)}, memberNodes ms = some vs → ((∀ n ∈ memberNumbers vs, p n) ↔ AllMembers (Doc.NumberHas p) ms)
  | [], vs, h => by cases h; simp [memberNumbers, AllMembers]
  | (a, k, b, c, x, d) :: ms, vs, h => by
    simp only [memberNodes, Option.bind_eq_some_iff, Option.map_eq_some_iff] at h
    obtain ⟨s, -, v, hv, ws, hw, rfl⟩ := h
    rw [memberNumbers, AllMembers, List.forall_mem_append, numbers_node p x hv, numbers_memberNodes p ms hw]
end

/-- The names of an object, read. -/
theorem names_memberNodes {ms : List (Space × List Item × Space × Space × Doc × Space)} {vs : List (String × Node)}
    (h : memberNodes ms = some vs) : (names ms).map unescape = vs.map fun m => some m.1.toList := by
  induction ms generalizing vs with
  | nil => cases h; rfl
  | cons m ms ih =>
    obtain ⟨a, k, b, c, x, d⟩ := m
    simp only [memberNodes, Option.bind_eq_some_iff, Option.map_eq_some_iff] at h
    obtain ⟨s, hs, v, hv, ws, hw, rfl⟩ := h
    rw [names_cons, List.map_cons, List.map_cons, ih hw, hs, String.toList_ofList]

end JsonText
