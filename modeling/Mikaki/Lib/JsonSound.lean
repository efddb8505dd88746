import Mikaki.Lib.Base64url
import Mikaki.Lib.Json

/-!
# Reading back what was written

`parse_render`: the parser returns the value a text was written from. The size
of a text is computed by `Value.size`, and a string that needs no long escape
is at most twice as long inside its quotes (`literal_le`).
-/

namespace Json

/-! ## String literals -/

theorem hexValue_hexDigit {n : Nat} (h : n < 16) : hexValue (hexDigit n) = some n := by
  have : ∀ m < 16, hexValue (hexDigit m) = some m := by decide
  exact this n h

theorem unit_toNat (c : Char) : unit c.toNat = some c := by
  have h : c.toNat.isValidChar := c.valid
  simp only [unit, h, dite_true]
  congr 1

theorem parseChars_plain {c : Char} (h₁ : c ≠ '"') (h₂ : c ≠ '\\') (h₃ : ¬c.toNat < 32) (cs : List Char) :
    parseChars (c :: cs) = (parseChars cs).map fun p => (c :: p.1, p.2) := by
  rw [parseChars]
  · simp [h₃]
  · exact h₁
  · intro _ _ _ _ _ e; exact absurd e h₂
  · intro _ _ e; exact absurd e h₂

theorem parseChars_escaped {e x : Char} (hu : e ≠ 'u') (hx : unescape e = some x) (cs : List Char) :
    parseChars ('\\' :: e :: cs) = (parseChars cs).map fun p => (x :: p.1, p.2) := by
  rw [parseChars]
  · simp [hx]
  · rintro a b c d cs' rfl
    exact absurd rfl hu

theorem parseChars_control {n : Nat} (h : n < 32) {x : Char} (hx : unit n = some x) (cs : List Char) :
    parseChars ('\\' :: 'u' :: '0' :: '0' :: hexDigit (n / 16) :: hexDigit (n % 16) :: cs) =
      (parseChars cs).map fun p => (x :: p.1, p.2) := by
  have h4 : hex4 '0' '0' (hexDigit (n / 16)) (hexDigit (n % 16)) = some n := by
    have h0 : hexValue '0' = some 0 := by decide
    simp only [hex4, h0, hexValue_hexDigit (show n / 16 < 16 by omega), hexValue_hexDigit (show n % 16 < 16 by omega)]
    simp only [Option.bind_eq_bind, Option.bind_some, Option.some.injEq]
    omega
  have hs : ¬(0xd800 ≤ n ∧ n < 0xdc00) := by omega
  rw [parseChars, h4]
  simp [hs, hx]

theorem parseChars_escape (c : Char) (cs : List Char) :
    parseChars (escape c ++ cs) = (parseChars cs).map fun p => (c :: p.1, p.2) := by
  unfold escape
  split
  · subst c; exact parseChars_escaped (by decide) (by decide) cs
  split
  · subst c; exact parseChars_escaped (by decide) (by decide) cs
  split
  · subst c; exact parseChars_escaped (by decide) (by decide) cs
  split
  · subst c; exact parseChars_escaped (by decide) (by decide) cs
  split
  · subst c; exact parseChars_escaped (by decide) (by decide) cs
  split
  · subst c; exact parseChars_escaped (by decide) (by decide) cs
  split
  · subst c; exact parseChars_escaped (by decide) (by decide) cs
  split
  · rename_i h; exact parseChars_control h (unit_toNat c) cs
  · rename_i h₁ h₂ _ _ _ _ _ h₃; exact parseChars_plain h₁ h₂ h₃ cs

theorem parseChars_literal (s : List Char) (r : List Char) :
    parseChars (s.flatMap escape ++ '"' :: r) = some (s, r) := by
  induction s with
  | nil => rfl
  | cons c s ih => rw [List.flatMap_cons, List.append_assoc, parseChars_escape, ih]; rfl

/-! ## Numbers -/

/-- A positive number is written without a leading zero. -/
theorem head_toDigits (n : Nat) (hn : 0 < n) : (Nat.toDigits 10 n).head? ≠ some '0' := by
  induction n using Nat.strongRecOn with
  | ind n ih =>
    rcases Nat.lt_or_ge n 10 with h | h
    · rw [Nat.toDigits_of_lt_base h]
      have : ∀ m < 10, 0 < m → [m.digitChar].head? ≠ some '0' := by decide
      exact this n h hn
    · rw [Nat.toDigits_of_base_le (by omega) h, List.head?_append_of_ne_nil _ Nat.toDigits_ne_nil]
      exact ih (n / 10) (by omega) (by omega)

theorem parseNumber_digits (n : Nat) {r : List Char} (hr : numberEnds r = true) :
    parseNumber (Nat.toDigits 10 n ++ r) = some (.num n, r) := by
  have hd : ∀ c ∈ Nat.toDigits 10 n, c.isDigit = true := fun c hc =>
    Nat.isDigit_of_mem_toDigits (by omega) (by omega) hc
  have hr' : ∀ c ∈ r.head?, ¬c.isDigit = true := by
    intro c hc
    cases r with
    | nil => cases hc
    | cons x r =>
      simp only [List.head?_cons, Option.mem_def, Option.some.injEq] at hc
      subst hc
      simp only [numberEnds, Bool.not_eq_true', Bool.or_eq_false_iff] at hr
      simp [hr.1.1.1]
  have ht : (Nat.toDigits 10 n ++ r).takeWhile Char.isDigit = Nat.toDigits 10 n := by
    rw [List.takeWhile_append_of_pos hd]
    cases r with
    | nil => simp
    | cons x r => simp [hr' x (by simp)]
  have hw : (Nat.toDigits 10 n ++ r).dropWhile Char.isDigit = r := by
    rw [List.dropWhile_append_of_pos hd]
    cases r with
    | nil => simp
    | cons x r => simp [hr' x (by simp)]
  have hz : ¬((Nat.toDigits 10 n).head? = some '0' ∧ Nat.toDigits 10 n ≠ ['0']) := by
    rintro ⟨h₁, h₂⟩
    rcases Nat.eq_zero_or_pos n with rfl | h
    · exact h₂ (Nat.toDigits_zero 10)
    · exact head_toDigits n h h₁
  simp only [parseNumber, ht, hw, hr, Nat.toDigits_ne_nil, hz, Bool.true_eq_false, or_self, if_false,
    Nat.ofDigitChars_ten_toDigits]

/-! ## Values -/

mutual
/-- Fuel that reads a value back. -/
def Value.need : Value → Nat
  | .arr xs => 1 + needElems xs
  | .obj ms => 1 + needMembers ms
  | _ => 1
def needElems : List Value → Nat
  | [] => 0
  | x :: xs => 1 + x.need + needElems xs
def needMembers : List (String × Value) → Nat
  | [] => 0
  | (_, v) :: ms => 1 + v.need + needMembers ms
end

theorem digit_head (n : Nat) : ∃ d ds, Nat.toDigits 10 n = d :: ds ∧ d.isDigit = true := by
  cases h : Nat.toDigits 10 n with
  | nil => exact absurd h Nat.toDigits_ne_nil
  | cons d ds =>
    exact ⟨d, ds, rfl, Nat.isDigit_of_mem_toDigits (b := 10) (n := n) (by omega) (by omega) (by rw [h]; simp)⟩

theorem digit_ne {d : Char} (h : d.isDigit = true) :
    d ≠ 'n' ∧ d ≠ 't' ∧ d ≠ 'f' ∧ d ≠ '"' ∧ d ≠ '[' ∧ d ≠ '{' ∧ d ≠ ']' ∧ isSpace d = false := by
  refine ⟨?_, ?_, ?_, ?_, ?_, ?_, ?_, ?_⟩
  case refine_8 =>
    cases hs : isSpace d with
    | false => rfl
    | true =>
      simp only [isSpace, Bool.or_eq_true, beq_iff_eq] at hs
      rcases hs with ((rfl | rfl) | rfl) | rfl <;> exact absurd h (by decide)
  all_goals rintro rfl; exact absurd h (by decide)

theorem chars_head (v : Value) : ∃ c cs, v.chars = c :: cs ∧ isSpace c = false ∧ c ≠ ']' := by
  cases v with
  | null => exact ⟨_, _, by rw [Value.chars], by decide, by decide⟩
  | bool b => cases b <;> exact ⟨_, _, by rw [Value.chars], by decide, by decide⟩
  | num n =>
    obtain ⟨d, ds, h, hd⟩ := digit_head n
    exact ⟨d, ds, by rw [Value.chars, h], (digit_ne hd).2.2.2.2.2.2.2, (digit_ne hd).2.2.2.2.2.2.1⟩
  | str s => exact ⟨'"', _, by rw [Value.chars]; rfl, by decide, by decide⟩
  | arr xs => cases xs <;> exact ⟨'[', _, Value.chars.eq_def _, by decide, by decide⟩
  | obj ms => rcases ms with - | ⟨⟨k, v⟩, ms⟩ <;> exact ⟨'{', _, Value.chars.eq_def _, by decide, by decide⟩

theorem skipSpace_chars (v : Value) (r : List Char) : skipSpace (v.chars ++ r) = v.chars ++ r := by
  obtain ⟨c, cs, h, hs, -⟩ := chars_head v
  rw [h]; simp [skipSpace, hs]

theorem numberEnds_elems (xs : List Value) (r : List Char) : numberEnds (elems xs ++ r) = true := by
  cases xs <;> rw [elems] <;> rfl

theorem numberEnds_members (ms : List (String × Value)) (r : List Char) : numberEnds (members ms ++ r) = true := by
  rcases ms with - | ⟨⟨k, v⟩, ms⟩ <;> rw [members] <;> rfl

theorem skipSpace_cons {c : Char} (h : isSpace c = false) (cs : List Char) : skipSpace (c :: cs) = c :: cs := by
  simp [skipSpace, h]

mutual
theorem parseValue_chars : ∀ (v : Value) (n : Nat) (r : List Char), v.need ≤ n → numberEnds r = true →
    parseValue n (v.chars ++ r) = some (v, r)
  | .null, n + 1, r, _, _ => by rw [Value.chars]; rfl
  | .bool true, n + 1, r, _, _ => by rw [Value.chars]; rfl
  | .bool false, n + 1, r, _, _ => by rw [Value.chars]; rfl
  | .num m, n + 1, r, _, hr => by
    have hs := skipSpace_chars (.num m) r
    have hp := parseNumber_digits m hr
    rw [Value.chars] at hs ⊢
    obtain ⟨d, ds, h, hd⟩ := digit_head m
    obtain ⟨h1, h2, h3, h4, h5, h6, -⟩ := digit_ne hd
    rw [h] at hs hp ⊢
    rw [parseValue, hs]
    split <;> simp_all
  | .str s, n + 1, r, _, _ => by
    rw [Value.chars, literal, List.append_assoc, List.singleton_append, List.cons_append, parseValue,
      skipSpace_cons (by decide)]
    simp only [parseChars_literal, Option.map_some, String.ofList_toList]
  | .arr [], n + 1, r, _, _ => by rw [Value.chars]; rfl
  | .arr (x :: xs), n + 1, r, h, _ => by
    have hn : needElems (x :: xs) ≤ n := by rw [Value.need] at h; omega
    have ih := parseElems_chars x xs n r hn
    have hs := skipSpace_chars x (elems xs ++ r)
    obtain ⟨c, cs, hc, -, hb⟩ := chars_head x
    rw [Value.chars, List.append_assoc, List.cons_append, parseValue, skipSpace_cons (by decide)]
    simp only [hs]
    rw [hc] at ih ⊢
    simp only [List.cons_append] at ih ⊢
    split
    · rename_i e; simp only [List.cons.injEq] at e; exact absurd e.1 hb
    · rw [ih]; rfl
  | .obj [], n + 1, r, _, _ => by rw [Value.chars]; rfl
  | .obj ((k, v) :: ms), n + 1, r, h, _ => by
    have hn : needMembers ((k, v) :: ms) ≤ n := by rw [Value.need] at h; omega
    have ih := parseMembers_chars k v ms n r hn
    rw [Value.chars, List.append_assoc, List.cons_append, List.cons_append, parseValue, skipSpace_cons (by decide)]
    simp only [literal, List.cons_append, List.append_assoc] at ih ⊢
    rw [skipSpace_cons (by decide)]
    exact congrArg (Option.map fun p => (Value.obj p.1, p.2)) ih
  | .null, 0, _, h, _ | .bool _, 0, _, h, _ | .num _, 0, _, h, _ | .str _, 0, _, h, _ => by
    simp [Value.need] at h
  | .arr _, 0, _, h, _ | .obj _, 0, _, h, _ => by simp [Value.need] at h

theorem parseElems_chars : ∀ (x : Value) (xs : List Value) (n : Nat) (r : List Char), needElems (x :: xs) ≤ n →
    parseElems n (x.chars ++ (elems xs ++ r)) = some (x :: xs, r)
  | x, [], n + 1, r, h => by
    rw [needElems] at h
    rw [parseElems, parseValue_chars x n _ (by omega) (numberEnds_elems [] r), elems]
    rfl
  | x, y :: ys, n + 1, r, h => by
    rw [needElems] at h
    rw [parseElems, parseValue_chars x n _ (by omega) (numberEnds_elems (y :: ys) r), elems, List.append_assoc,
      List.cons_append, Option.bind_some]
    simp only [skipSpace_cons (show isSpace ',' = false by decide), parseElems_chars y ys n r (by omega),
      Option.map_some]
  | _, _, 0, _, h => by simp [needElems] at h

theorem parseMembers_chars : ∀ (k : String) (v : Value) (ms : List (String × Value)) (n : Nat) (r : List Char),
    needMembers ((k, v) :: ms) ≤ n →
    parseMembers n (literal k ++ (':' :: v.chars ++ (members ms ++ r))) = some ((k, v) :: ms, r)
  | k, v, [], n + 1, r, h => by
    rw [needMembers] at h
    have hv := parseValue_chars v n (members [] ++ r) (by omega) (numberEnds_members [] r)
    rw [literal, List.append_assoc, List.cons_append, parseMembers, skipSpace_cons (by decide)]
    simp only [List.cons_append, List.nil_append, parseChars_literal, Option.bind_some,
      skipSpace_cons (show isSpace ':' = false by decide), String.ofList_toList, hv]
    rw [members]
    rfl
  | k, v, (k', v') :: ms, n + 1, r, h => by
    rw [needMembers] at h
    have hv := parseValue_chars v n (members ((k', v') :: ms) ++ r) (by omega) (numberEnds_members _ r)
    have ih := parseMembers_chars k' v' ms n r (by omega)
    rw [literal, List.append_assoc, List.cons_append, parseMembers, skipSpace_cons (by decide)]
    simp only [List.cons_append, List.nil_append, parseChars_literal, Option.bind_some,
      skipSpace_cons (show isSpace ':' = false by decide), String.ofList_toList, hv]
    rw [members]
    simp only [List.cons_append, List.append_assoc] at ih ⊢
    rw [skipSpace_cons (by decide)]
    simp only [ih, Option.map_some]
  | _, _, _, 0, _, h => by simp [needMembers] at h
end

/-! ## Enough fuel -/

mutual
theorem need_le : ∀ v : Value, v.need ≤ v.chars.length
  | .null => by simp [Value.need, Value.chars]
  | .bool true => by simp [Value.need, Value.chars]
  | .bool false => by simp [Value.need, Value.chars]
  | .num n => by
    rw [Value.need, Value.chars]
    exact Nat.length_toDigits_pos
    all_goals simp
  | .str s => by simp [Value.need, Value.chars, literal]
  | .arr [] => by simp [Value.need, needElems, Value.chars]
  | .arr (x :: xs) => by
    have h₁ := need_le x
    have h₂ := needElems_le xs
    simp only [Value.need, needElems, Value.chars, List.length_append, List.length_cons]
    omega
  | .obj [] => by simp [Value.need, needMembers, Value.chars]
  | .obj ((k, v) :: ms) => by
    have h₁ := need_le v
    have h₂ := needMembers_le ms
    simp only [Value.need, needMembers, Value.chars, List.length_append, List.length_cons]
    omega

theorem needElems_le : ∀ xs : List Value, needElems xs + 1 ≤ (elems xs).length
  | [] => by simp [needElems, elems]
  | x :: xs => by
    have h₁ := need_le x
    have h₂ := needElems_le xs
    simp only [needElems, elems, List.length_append, List.length_cons]
    omega

theorem needMembers_le : ∀ ms : List (String × Value), needMembers ms + 1 ≤ (members ms).length
  | [] => by simp [needMembers, members]
  | (k, v) :: ms => by
    have h₁ := need_le v
    have h₂ := needMembers_le ms
    simp only [needMembers, members, List.length_append, List.length_cons]
    omega
end

/-- A rendered value is read back. -/
theorem parse_render (v : Value) : parse v.render = some v := by
  have h := parseValue_chars v (v.chars.length + 1) [] (by have := need_le v; omega) rfl
  rw [List.append_nil] at h
  simp only [parse, Value.render, String.toList_ofList, h]
  rfl

/-! ## Sizes -/

/-- The UTF-8 length of a list of characters. -/
def width (cs : List Char) : Nat := (cs.map Char.utf8Size).sum

@[simp] theorem width_nil : width [] = 0 := rfl

@[simp] theorem width_cons (c : Char) (cs : List Char) : width (c :: cs) = c.utf8Size + width cs := by simp [width]

@[simp] theorem width_append (cs ds : List Char) : width (cs ++ ds) = width cs + width ds := by simp [width]

theorem size_render (v : Value) : v.render.utf8ByteSize = width v.chars := Text.size_ofList _

theorem size_eq_width (s : String) : s.utf8ByteSize = width s.toList := Text.size_eq s

/-- Written as itself or behind one backslash. -/
def Short (c : Char) : Prop := escape c = [c] ∨ ∃ e : Char, escape c = ['\\', e] ∧ e.utf8Size = 1

theorem width_escape {c : Char} (h : Short c) : width (escape c) ≤ 2 * c.utf8Size := by
  have := c.utf8Size_pos
  have hb : Char.utf8Size '\\' = 1 := by decide
  rcases h with h | ⟨e, h, he⟩ <;> rw [h] <;> simp only [width_cons, width_nil] <;> omega

theorem width_flatMap_le {l : List Char} (h : ∀ c ∈ l, Short c) : width (l.flatMap escape) ≤ 2 * width l := by
  induction l with
  | nil => simp
  | cons c l ih =>
    have h₁ := width_escape (h c List.mem_cons_self)
    have h₂ := ih fun x hx => h x (List.mem_cons_of_mem _ hx)
    simp only [List.flatMap_cons, width_append, width_cons]
    omega

/-- A text of short characters at most doubles. -/
theorem literal_le {s : String} (h : ∀ c ∈ s.toList, Short c) : width (literal s) ≤ 2 + 2 * s.utf8ByteSize := by
  have := width_flatMap_le h
  have hq : Char.utf8Size '"' = 1 := by decide
  rw [size_eq_width]
  simp only [literal, List.cons_append, width_cons, width_append, width_nil, hq]
  omega

/-- A character is written as itself, behind a backslash or as the six of its code. -/
theorem escape_cases (c : Char) : Short c ∨ c.toNat < 32 ∧ escape c = ['\\', 'u', '0', '0', hexDigit (c.toNat / 16), hexDigit (c.toNat % 16)] := by
  unfold Short escape
  split
  · exact .inl (.inr ⟨'"', rfl, by decide⟩)
  split
  · exact .inl (.inr ⟨'\\', rfl, by decide⟩)
  split
  · exact .inl (.inr ⟨'b', rfl, by decide⟩)
  split
  · exact .inl (.inr ⟨'t', rfl, by decide⟩)
  split
  · exact .inl (.inr ⟨'n', rfl, by decide⟩)
  split
  · exact .inl (.inr ⟨'f', rfl, by decide⟩)
  split
  · exact .inl (.inr ⟨'r', rfl, by decide⟩)
  split
  · rename_i h
    exact .inr ⟨h, rfl⟩
  · exact .inl (.inl rfl)

theorem width_escape_any (c : Char) : width (escape c) ≤ 6 * c.utf8Size := by
  have hpos := c.utf8Size_pos
  obtain hs | ⟨hlt, he⟩ := escape_cases c
  · have hw := width_escape hs
    omega
  · have hhex : ∀ n < 16, (hexDigit n).utf8Size = 1 := by decide
    have h1 := hhex (c.toNat / 16) (by omega)
    have h2 := hhex (c.toNat % 16) (Nat.mod_lt _ (by decide))
    have hb : Char.utf8Size '\\' = 1 := by decide
    have hu : Char.utf8Size 'u' = 1 := by decide
    have hz : Char.utf8Size '0' = 1 := by decide
    rw [he]
    simp only [width_cons, width_nil, hb, hu, hz, h1, h2]
    omega

theorem literal_any (s : String) : width (literal s) ≤ 2 + 6 * s.utf8ByteSize := by
  have hall : ∀ l : List Char, width (l.flatMap escape) ≤ 6 * width l := by
    intro l
    induction l with
    | nil => exact Nat.le_refl _
    | cons c l ih =>
      have hc := width_escape_any c
      rw [List.flatMap_cons, width_append, width_cons]
      omega
  have hq : Char.utf8Size '"' = 1 := by decide
  have hs := hall s.toList
  rw [size_eq_width]
  simp only [literal, List.cons_append, width_cons, width_append, width_nil, hq]
  omega

/-- A text with nothing to escape only gains its quotes. -/
theorem literal_plain {s : String} (h : ∀ c ∈ s.toList, escape c = [c]) : width (literal s) = 2 + s.utf8ByteSize := by
  have hq : Char.utf8Size '"' = 1 := by decide
  have hf : s.toList.flatMap escape = s.toList := by
    have : ∀ l : List Char, (∀ c ∈ l, escape c = [c]) → l.flatMap escape = l := by
      intro l
      induction l with
      | nil => intro _; rfl
      | cons c l ih =>
        intro h
        rw [List.flatMap_cons, h c List.mem_cons_self, ih fun x hx => h x (List.mem_cons_of_mem _ hx)]
        rfl
    exact this _ h
  rw [size_eq_width]
  simp only [literal, hf, List.cons_append, width_cons, width_append, width_nil, hq]
  omega

theorem width_num {n k : Nat} (hk : 0 < k) (h : n < 10 ^ k) : width (Value.num n).chars ≤ k := by
  have hl : (Nat.toDigits 10 n).length ≤ k := (Nat.length_toDigits_le_iff (by omega) hk).mpr h
  have hd : ∀ c ∈ Nat.toDigits 10 n, c.utf8Size = 1 := by
    intro c hc
    have hd := Nat.isDigit_of_mem_toDigits (b := 10) (by omega) (by omega) hc
    rw [Char.utf8Size_eq_one_iff, UInt32.le_iff_toNat_le]
    simp only [Char.isDigit, Bool.and_eq_true, decide_eq_true_eq, ge_iff_le, UInt32.le_iff_toNat_le] at hd
    exact Nat.le_trans hd.2 (by decide)
  rw [Value.chars]
  have : width (Nat.toDigits 10 n) = (Nat.toDigits 10 n).length := by
    rw [width, List.map_congr_left hd]; simp
  omega

/-- Keys with their quotes, a colon and a comma or brace each. -/
def keysWidth (ks : List String) : Nat := (ks.map fun k => width (literal k) + 2).sum

def valuesWidth (vs : List Value) : Nat := (vs.map fun v => width v.chars).sum

theorem keysWidth_append (ks ls : List String) : keysWidth (ks ++ ls) = keysWidth ks + keysWidth ls := by
  simp [keysWidth]

theorem valuesWidth_append (vs ws : List Value) : valuesWidth (vs ++ ws) = valuesWidth vs + valuesWidth ws := by
  simp [valuesWidth]

theorem width_members (ms : List (String × Value)) :
    width (members ms) = keysWidth (ms.map Prod.fst) + valuesWidth (ms.map Prod.snd) + 1 := by
  induction ms with
  | nil => rw [members]; rfl
  | cons m ms ih =>
    obtain ⟨k, v⟩ := m
    have hc : Char.utf8Size ',' = 1 := by decide
    have hd : Char.utf8Size ':' = 1 := by decide
    rw [members]
    simp only [List.cons_append, width_cons, width_append, ih, keysWidth, valuesWidth, List.map_cons, List.sum_cons,
      hc, hd]
    omega

theorem width_obj_cons (m : String × Value) (ms : List (String × Value)) : width (Value.obj (m :: ms)).chars =
    keysWidth ((m :: ms).map Prod.fst) + valuesWidth ((m :: ms).map Prod.snd) + 1 := by
  obtain ⟨k, v⟩ := m
  have hb : Char.utf8Size '\x7b' = 1 := by decide
  have hd : Char.utf8Size ':' = 1 := by decide
  have hm := width_members ms
  rw [Value.chars]
  simp only [List.cons_append, width_cons, width_append, hm, keysWidth, valuesWidth, List.map_cons, List.sum_cons,
    hb, hd]
  omega

/-- Leaving members out makes a record no wider. -/
theorem width_obj_sublist {ms ns : List (String × Value)} (h : ms.Sublist ns) (hm : ms ≠ []) :
    width (Value.obj ms).chars ≤ width (Value.obj ns).chars := by
  cases ms with
  | nil => exact absurd rfl hm
  | cons m ms =>
    cases ns with
    | nil => cases h
    | cons n ns =>
      have hk : keysWidth ((m :: ms).map Prod.fst) ≤ keysWidth ((n :: ns).map Prod.fst) :=
        ((h.map Prod.fst).map _).sum_le_sum fun _ _ => Nat.zero_le _
      have hv : valuesWidth ((m :: ms).map Prod.snd) ≤ valuesWidth ((n :: ns).map Prod.snd) :=
        ((h.map Prod.snd).map _).sum_le_sum fun _ _ => Nat.zero_le _
      rw [width_obj_cons, width_obj_cons]
      omega

/-- The size of a record is what its keys and its values take, and the braces. -/
theorem width_obj (ms : List (String × Value)) :
    width (Value.obj ms).chars ≤ keysWidth (ms.map Prod.fst) + valuesWidth (ms.map Prod.snd) + 2 := by
  cases ms with
  | nil => rw [Value.chars]; decide
  | cons m ms => rw [width_obj_cons]; omega

theorem width_elems (xs : List Value) : width (elems xs) = valuesWidth xs + xs.length + 1 := by
  induction xs with
  | nil => rw [elems]; rfl
  | cons x xs ih =>
    have hc : Char.utf8Size ',' = 1 := by decide
    rw [elems]
    simp only [List.cons_append, width_cons, width_append, ih, valuesWidth, List.map_cons, List.sum_cons,
      List.length_cons, hc]
    omega

theorem width_arr (xs : List Value) : width (Value.arr xs).chars ≤ valuesWidth xs + xs.length + 2 := by
  cases xs with
  | nil => rw [Value.chars]; decide
  | cons x xs =>
    have hb : Char.utf8Size '[' = 1 := by decide
    have he := width_elems xs
    rw [Value.chars]
    simp only [List.cons_append, width_cons, width_append, he, valuesWidth, List.map_cons, List.sum_cons,
      List.length_cons, hb]
    omega

/-! ## Base64url in a text -/

theorem escape_urlSafe {c : Char} (h : Base64url.urlSafe c = true) : escape c = [c] := by
  obtain ⟨h₁, h₂⟩ := Base64url.urlSafe_range h
  have hn : ∀ d : Char, d.toNat < 45 → c ≠ d := fun d hd e => by rw [e] at h₁; omega
  have hb : c ≠ '\\' := fun e => by rw [e] at h; exact absurd h (by decide)
  rw [escape, if_neg (hn _ (by decide)), if_neg hb, if_neg (hn _ (by decide)), if_neg (hn _ (by decide)),
    if_neg (hn _ (by decide)), if_neg (hn _ (by decide)), if_neg (hn _ (by decide)), if_neg (by omega)]

theorem width_encode (bs : List UInt8) : width (literal (Base64url.encode bs)) = 2 + (4 * bs.length + 2) / 3 := by
  rw [literal_plain, Base64url.size_encode]
  intro c hc
  rw [Base64url.encode, String.toList_ofList] at hc
  exact escape_urlSafe (Base64url.urlSafe_chars bs c hc)

end Json
