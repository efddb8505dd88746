import Mikaki.Lib.Text

/-!
# JSON text

`Value.render` writes a value in the compact form, escaping a character of a
string only where JSON requires it. `parse` reads a text with the insignificant
whitespace JSON allows; the only numbers are natural numbers, and a text with
any other number has no value here. `fields` is the reading of a closed record:
an object with no unknown and no repeated key, or an array in field order.
-/

namespace Json

inductive Value where
  | null
  | bool (b : Bool)
  | num (n : Nat)
  | str (s : String)
  | arr (xs : List Value)
  | obj (ms : List (String × Value))

/-! ## Writing -/

def hexDigit (n : Nat) : Char := Char.ofNat (if n < 10 then 48 + n else 87 + n)

/-- One character inside a string literal. -/
def escape (c : Char) : List Char :=
  if c = '"' then ['\\', '"']
  else if c = '\\' then ['\\', '\\']
  else if c = Char.ofNat 8 then ['\\', 'b']
  else if c = '\t' then ['\\', 't']
  else if c = '\n' then ['\\', 'n']
  else if c = Char.ofNat 12 then ['\\', 'f']
  else if c = '\r' then ['\\', 'r']
  else if c.toNat < 32 then ['\\', 'u', '0', '0', hexDigit (c.toNat / 16), hexDigit (c.toNat % 16)]
  else [c]

def literal (s : String) : List Char := '"' :: s.toList.flatMap escape ++ ['"']

mutual
def Value.chars : Value → List Char
  | .null => ['n', 'u', 'l', 'l']
  | .bool true => ['t', 'r', 'u', 'e']
  | .bool false => ['f', 'a', 'l', 's', 'e']
  | .num n => Nat.toDigits 10 n
  | .str s => literal s
  | .arr [] => ['[', ']']
  | .arr (x :: xs) => '[' :: x.chars ++ elems xs
  | .obj [] => ['{', '}']
  | .obj ((k, v) :: ms) => '{' :: literal k ++ ':' :: v.chars ++ members ms
/-- The elements after the first, and the closing bracket. -/
def elems : List Value → List Char
  | [] => [']']
  | x :: xs => ',' :: x.chars ++ elems xs
/-- The members after the first, and the closing brace. -/
def members : List (String × Value) → List Char
  | [] => ['}']
  | (k, v) :: ms => ',' :: literal k ++ ':' :: v.chars ++ members ms
end

def Value.render (v : Value) : String := String.ofList v.chars

/-! ## Reading -/

def isSpace (c : Char) : Bool := c == ' ' || c == '\n' || c == '\t' || c == '\r'

def skipSpace : List Char → List Char
  | [] => []
  | c :: cs => if isSpace c then skipSpace cs else c :: cs

def hexValue (c : Char) : Option Nat :=
  if 48 ≤ c.toNat ∧ c.toNat ≤ 57 then some (c.toNat - 48)
  else if 97 ≤ c.toNat ∧ c.toNat ≤ 102 then some (c.toNat - 87)
  else if 65 ≤ c.toNat ∧ c.toNat ≤ 70 then some (c.toNat - 55)
  else none

def hex4 (a b c d : Char) : Option Nat := do
  let a ← hexValue a
  let b ← hexValue b
  let c ← hexValue c
  let d ← hexValue d
  some (4096 * a + 256 * b + 16 * c + d)

/-- The character a backslash and `e` stand for. -/
def unescape (e : Char) : Option Char :=
  if e = '"' then some '"'
  else if e = '\\' then some '\\'
  else if e = '/' then some '/'
  else if e = 'b' then some (Char.ofNat 8)
  else if e = 't' then some '\t'
  else if e = 'n' then some '\n'
  else if e = 'f' then some (Char.ofNat 12)
  else if e = 'r' then some '\r'
  else none

/-- The scalar value of a `\u` escape, or of a surrogate pair of them. -/
def unit (n : Nat) : Option Char := if h : n.isValidChar then some (Char.ofNatAux n h) else none

/-- The rest of a string literal after its opening quote. -/
def parseChars : List Char → Option (List Char × List Char)
  | [] => none
  | '"' :: cs => some ([], cs)
  | '\\' :: 'u' :: a :: b :: c :: d :: cs =>
    match hex4 a b c d with
    | none => none
    | some n =>
      if 0xd800 ≤ n ∧ n < 0xdc00 then
        match cs with
        | '\\' :: 'u' :: a :: b :: c :: d :: cs =>
          match hex4 a b c d with
          | none => none
          | some m =>
            if 0xdc00 ≤ m ∧ m < 0xe000 then
              (unit (0x10000 + (n - 0xd800) * 1024 + (m - 0xdc00))).bind fun x =>
                (parseChars cs).map fun p => (x :: p.1, p.2)
            else none
        | _ => none
      else (unit n).bind fun x => (parseChars cs).map fun p => (x :: p.1, p.2)
  | '\\' :: e :: cs => (unescape e).bind fun x => (parseChars cs).map fun p => (x :: p.1, p.2)
  | c :: cs => if c.toNat < 32 then none else (parseChars cs).map fun p => (c :: p.1, p.2)

/-- A number may not run on into a fraction or an exponent. -/
def numberEnds : List Char → Bool
  | [] => true
  | c :: _ => !(c.isDigit || c == '.' || c == 'e' || c == 'E')

def parseNumber (cs : List Char) : Option (Value × List Char) :=
  let ds := cs.takeWhile Char.isDigit
  let rest := cs.dropWhile Char.isDigit
  if ds = [] ∨ (ds.head? = some '0' ∧ ds ≠ ['0']) ∨ numberEnds rest = false then none
  else some (.num (Nat.ofDigitChars 10 ds 0), rest)

mutual
def parseValue : Nat → List Char → Option (Value × List Char)
  | 0, _ => none
  | n + 1, cs =>
    match skipSpace cs with
    | 'n' :: 'u' :: 'l' :: 'l' :: cs => some (.null, cs)
    | 't' :: 'r' :: 'u' :: 'e' :: cs => some (.bool true, cs)
    | 'f' :: 'a' :: 'l' :: 's' :: 'e' :: cs => some (.bool false, cs)
    | '"' :: cs => (parseChars cs).map fun p => (.str (String.ofList p.1), p.2)
    | '[' :: cs =>
      match skipSpace cs with
      | ']' :: cs => some (.arr [], cs)
      | cs => (parseElems n cs).map fun p => (.arr p.1, p.2)
    | '{' :: cs =>
      match skipSpace cs with
      | '}' :: cs => some (.obj [], cs)
      | cs => (parseMembers n cs).map fun p => (.obj p.1, p.2)
    | cs => parseNumber cs
def parseElems : Nat → List Char → Option (List Value × List Char)
  | 0, _ => none
  | n + 1, cs =>
    (parseValue n cs).bind fun p =>
      match skipSpace p.2 with
      | ',' :: cs => (parseElems n cs).map fun q => (p.1 :: q.1, q.2)
      | ']' :: cs => some ([p.1], cs)
      | _ => none
def parseMembers : Nat → List Char → Option (List (String × Value) × List Char)
  | 0, _ => none
  | n + 1, cs =>
    match skipSpace cs with
    | '"' :: cs =>
      (parseChars cs).bind fun k =>
        match skipSpace k.2 with
        | ':' :: cs =>
          (parseValue n cs).bind fun p =>
            match skipSpace p.2 with
            | ',' :: cs => (parseMembers n cs).map fun q => ((String.ofList k.1, p.1) :: q.1, q.2)
            | '}' :: cs => some ([(String.ofList k.1, p.1)], cs)
            | _ => none
        | _ => none
    | _ => none
end

/-- One value and nothing after it but whitespace. -/
def parse (s : String) : Option Value :=
  match parseValue (s.toList.length + 1) s.toList with
  | some (v, rest) => if skipSpace rest = [] then some v else none
  | none => none

/-! ## Closed records -/

/-- The fields of a record with the given names: no unknown and no repeated key. An array is read in field order. -/
def fields (names : List String) : Value → Option (String → Option Value)
  | .obj ms =>
    if (ms.map Prod.fst).Nodup ∧ ∀ k ∈ ms.map Prod.fst, k ∈ names then some fun k => ms.lookup k else none
  | .arr xs => if xs.length ≤ names.length then some fun k => (names.zip xs).lookup k else none
  | _ => none

def Value.asStr : Value → Option String
  | .str s => some s
  | _ => none

/-- A natural number below `bound`. -/
def Value.asNum (bound : Nat) : Value → Option Nat
  | .num n => if n < bound then some n else none
  | _ => none

/-- An array, each element read by `read`. -/
def Value.asArr {α : Type} (read : Value → Option α) : Value → Option (List α)
  | .arr xs => xs.mapM read
  | _ => none

end Json
