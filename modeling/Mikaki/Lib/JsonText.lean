import Mikaki.Lib.JsonSound

/-!
# The texts of JSON

A `Doc` is a text of the JSON grammar as it was written: the whitespace, the
escapes and the digits of the numbers. `read` is a reader of any such text, and
`read_chars` says what it returns for each: the value, or nothing when an
escape stands for half of a surrogate pair.
-/

namespace JsonText

/-- Insignificant whitespace. -/
abbrev Space := { cs : List Char // cs.all Json.isSpace = true }

/-- One element of a string: a character as itself, behind a backslash, or as four hexadecimal digits. -/
inductive Item where
  | plain (c : Char) (h : c ≠ '"' ∧ c ≠ '\\' ∧ ¬c.toNat < 32)
  | short (e : Char) (h : (Json.unescape e).isSome = true)
  | unit (a b c d : Char) (h : (Json.hex4 a b c d).isSome = true)

def Item.chars : Item → List Char
  | .plain c _ => [c]
  | .short e _ => ['\\', e]
  | .unit a b c d _ => ['\\', 'u', a, b, c, d]

def unescape : List Item → Option (List Char)
  | [] => some []
  | .plain c _ :: is => (unescape is).map (c :: ·)
  | .short e _ :: is => (Json.unescape e).bind fun x => (unescape is).map (x :: ·)
  | .unit a b c d _ :: is =>
    match Json.hex4 a b c d with
    | none => none
    | some n =>
      if 0xd800 ≤ n ∧ n < 0xdc00 then
        match is with
        | .unit a b c d _ :: is =>
          match Json.hex4 a b c d with
          | none => none
          | some m =>
            if 0xdc00 ≤ m ∧ m < 0xe000 then
              (Json.unit (0x10000 + (n - 0xd800) * 1024 + (m - 0xdc00))).bind fun x => (unescape is).map (x :: ·)
            else none
        | _ => none
      else (Json.unit n).bind fun x => (unescape is).map (x :: ·)

/-! ## Numbers -/

def isNumberChar (c : Char) : Bool := c.isDigit || c == '-' || c == '+' || c == '.' || c == 'e' || c == 'E'

def isDigits (cs : List Char) : Bool := !cs.isEmpty && cs.all Char.isDigit

/-- What may stand behind an `e`. -/
def isPower : List Char → Bool
  | '+' :: cs => isDigits cs
  | '-' :: cs => isDigits cs
  | cs => isDigits cs

def isExponent : List Char → Bool
  | [] => true
  | c :: cs => (c == 'e' || c == 'E') && isPower cs

def isFraction : List Char → Bool
  | '.' :: cs => isDigits (cs.takeWhile Char.isDigit) && isExponent (cs.dropWhile Char.isDigit)
  | cs => isExponent cs

def isUnsigned (cs : List Char) : Bool :=
  let ds := cs.takeWhile Char.isDigit
  isDigits ds && (ds == ['0'] || ds.head? != some '0') && isFraction (cs.dropWhile Char.isDigit)

def isNumber : List Char → Bool
  | '-' :: cs => isUnsigned cs
  | cs => isUnsigned cs

abbrev Number := { cs : List Char // isNumber cs = true }

/-! ## Documents -/

inductive Doc where
  | null
  | bool (b : Bool)
  | num (n : Number)
  | str (s : List Item)
  /-- The elements, each between whitespace, and whitespace before the bracket. -/
  | arr (xs : List (Space × Doc × Space)) (w : Space)
  | obj (ms : List (Space × List Item × Space × Space × Doc × Space)) (w : Space)

def quoted (s : List Item) : List Char := '"' :: s.flatMap Item.chars ++ ['"']

mutual
def Doc.chars : Doc → List Char
  | .null => ['n', 'u', 'l', 'l']
  | .bool true => ['t', 'r', 'u', 'e']
  | .bool false => ['f', 'a', 'l', 's', 'e']
  | .num n => n.val
  | .str s => quoted s
  | .arr [] w => '[' :: w.val ++ [']']
  | .arr ((a, x, b) :: xs) w => '[' :: a.val ++ x.chars ++ b.val ++ elems xs w
  | .obj [] w => '{' :: w.val ++ ['}']
  | .obj ((a, k, b, c, x, d) :: ms) w => '{' :: a.val ++ quoted k ++ b.val ++ ':' :: c.val ++ x.chars ++ d.val ++ members ms w
/-- The elements after the first, and the closing bracket. -/
def elems : List (Space × Doc × Space) → Space → List Char
  | [], w => w.val ++ [']']
  | (a, x, b) :: xs, w => ',' :: a.val ++ x.chars ++ b.val ++ elems xs w
/-- The members after the first, and the closing brace. -/
def members : List (Space × List Item × Space × Space × Doc × Space) → Space → List Char
  | [], w => w.val ++ ['}']
  | (a, k, b, c, x, d) :: ms, w =>
    ',' :: a.val ++ quoted k ++ b.val ++ ':' :: c.val ++ x.chars ++ d.val ++ members ms w
end

mutual
/-- How deep arrays and objects are nested. -/
def Doc.depth : Doc → Nat
  | .arr xs _ => depths xs + 1
  | .obj ms _ => memberDepths ms + 1
  | _ => 0
def depths : List (Space × Doc × Space) → Nat
  | [] => 0
  | (_, x, _) :: xs => max x.depth (depths xs)
def memberDepths : List (Space × List Item × Space × Space × Doc × Space) → Nat
  | [] => 0
  | (_, _, _, _, x, _) :: ms => max x.depth (memberDepths ms)
end

mutual
/-- A document and every document in it have a property. -/
def Doc.All (p : Doc → Prop) : Doc → Prop
  | .arr xs w => p (.arr xs w) ∧ AllElems p xs
  | .obj ms w => p (.obj ms w) ∧ AllMembers p ms
  | t => p t
def AllElems (p : Doc → Prop) : List (Space × Doc × Space) → Prop
  | [] => True
  | (_, x, _) :: xs => x.All p ∧ AllElems p xs
def AllMembers (p : Doc → Prop) : List (Space × List Item × Space × Space × Doc × Space) → Prop
  | [] => True
  | (_, _, _, _, x, _) :: ms => x.All p ∧ AllMembers p ms
end

/-- The names of an object. -/
def names (ms : List (Space × List Item × Space × Space × Doc × Space)) : List (List Item) := ms.map fun m => m.2.1

/-- The strings of a text, names included, are strings of characters. -/
def Doc.Readable : Doc → Prop
  | .str s => (unescape s).isSome = true
  | .obj ms _ => ∀ k ∈ names ms, (unescape k).isSome = true
  | _ => True

/-! ## Values -/

/-- What a text says: strings unescaped, numbers as they were written. -/
inductive Node where
  | null
  | bool (b : Bool)
  | num (n : List Char)
  | str (s : String)
  | arr (xs : List Node)
  | obj (ms : List (String × Node))

mutual
def Doc.node : Doc → Option Node
  | .null => some .null
  | .bool b => some (.bool b)
  | .num n => some (.num n.val)
  | .str s => (unescape s).map fun s => .str (String.ofList s)
  | .arr xs _ => (nodes xs).map .arr
  | .obj ms _ => (memberNodes ms).map .obj
def nodes : List (Space × Doc × Space) → Option (List Node)
  | [] => some []
  | (_, x, _) :: xs => x.node.bind fun n => (nodes xs).map (n :: ·)
def memberNodes : List (Space × List Item × Space × Space × Doc × Space) → Option (List (String × Node))
  | [] => some []
  | (_, k, _, _, x, _) :: ms => (unescape k).bind fun k => x.node.bind fun n => (memberNodes ms).map ((String.ofList k, n) :: ·)
end

mutual
def Node.depth : Node → Nat
  | .arr xs => nodeDepths xs + 1
  | .obj ms => memberNodeDepths ms + 1
  | _ => 0
def nodeDepths : List Node → Nat
  | [] => 0
  | x :: xs => max x.depth (nodeDepths xs)
def memberNodeDepths : List (String × Node) → Nat
  | [] => 0
  | (_, x) :: ms => max x.depth (memberNodeDepths ms)
end

mutual
/-- The numbers of a value, as they were written. -/
def Node.numbers : Node → List (List Char)
  | .num n => [n]
  | .arr xs => nodeNumbers xs
  | .obj ms => memberNumbers ms
  | _ => []
def nodeNumbers : List Node → List (List Char)
  | [] => []
  | x :: xs => x.numbers ++ nodeNumbers xs
def memberNumbers : List (String × Node) → List (List Char)
  | [] => []
  | (_, x) :: ms => x.numbers ++ memberNumbers ms
end

/-! ## Reading -/

def parseNumber (cs : List Char) : Option (Node × List Char) :=
  if isNumber (cs.takeWhile isNumberChar) then some (.num (cs.takeWhile isNumberChar), cs.dropWhile isNumberChar) else none

mutual
def parseValue : Nat → List Char → Option (Node × List Char)
  | 0, _ => none
  | n + 1, cs =>
    match Json.skipSpace cs with
    | 'n' :: 'u' :: 'l' :: 'l' :: cs => some (.null, cs)
    | 't' :: 'r' :: 'u' :: 'e' :: cs => some (.bool true, cs)
    | 'f' :: 'a' :: 'l' :: 's' :: 'e' :: cs => some (.bool false, cs)
    | '"' :: cs => (Json.parseChars cs).map fun p => (.str (String.ofList p.1), p.2)
    | '[' :: cs =>
      match Json.skipSpace cs with
      | ']' :: cs => some (.arr [], cs)
      | cs => (parseElems n cs).map fun p => (.arr p.1, p.2)
    | '{' :: cs =>
      match Json.skipSpace cs with
      | '}' :: cs => some (.obj [], cs)
      | cs => (parseMembers n cs).map fun p => (.obj p.1, p.2)
    | cs => parseNumber cs
def parseElems : Nat → List Char → Option (List Node × List Char)
  | 0, _ => none
  | n + 1, cs =>
    (parseValue n cs).bind fun p =>
      match Json.skipSpace p.2 with
      | ',' :: cs => (parseElems n cs).map fun q => (p.1 :: q.1, q.2)
      | ']' :: cs => some ([p.1], cs)
      | _ => none
def parseMembers : Nat → List Char → Option (List (String × Node) × List Char)
  | 0, _ => none
  | n + 1, cs =>
    match Json.skipSpace cs with
    | '"' :: cs =>
      (Json.parseChars cs).bind fun k =>
        match Json.skipSpace k.2 with
        | ':' :: cs =>
          (parseValue n cs).bind fun p =>
            match Json.skipSpace p.2 with
            | ',' :: cs => (parseMembers n cs).map fun q => ((String.ofList k.1, p.1) :: q.1, q.2)
            | '}' :: cs => some ([(String.ofList k.1, p.1)], cs)
            | _ => none
        | _ => none
    | _ => none
end

/-- One value and nothing around it but whitespace. -/
def read (s : String) : Option Node :=
  match parseValue (s.toList.length + 1) s.toList with
  | some (v, rest) => if Json.skipSpace rest = [] then some v else none
  | none => none

end JsonText
