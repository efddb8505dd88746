import Mikaki.Lib.Framing

/-!
# SHA-1 and SHA-256

Both functions pad a message to whole blocks of 64 bytes and fold a compression
function over them. The message schedule is built newest word first.
-/

namespace Sha

/-- A one bit, zeros, and the length in bits. -/
def pad (m : List UInt8) : List UInt8 :=
  m ++ 0x80 :: List.replicate ((119 - m.length % 64) % 64) 0 ++ Framing.be64 (8 * m.length)

/-- Big-endian words. -/
def words : List UInt8 → List UInt32
  | a :: b :: c :: d :: rest =>
    (a.toUInt32 <<< 24 ||| b.toUInt32 <<< 16 ||| c.toUInt32 <<< 8 ||| d.toUInt32) :: words rest
  | _ => []

def bytes (w : UInt32) : List UInt8 := [(w >>> 24).toUInt8, (w >>> 16).toUInt8, (w >>> 8).toUInt8, w.toUInt8]

/-- The blocks of 16 words of `n` blocks. -/
def blocks : Nat → List UInt32 → List (List UInt32)
  | 0, _ => []
  | n + 1, ws => ws.take 16 :: blocks n (ws.drop 16)

def messageBlocks (m : List UInt8) : List (List UInt32) :=
  let ws := words (pad m)
  blocks (ws.length / 16) ws

def rotl (w : UInt32) (n : UInt32) : UInt32 := w <<< n ||| w >>> (32 - n)

def rotr (w : UInt32) (n : UInt32) : UInt32 := w >>> n ||| w <<< (32 - n)

/-- `n` more words of a schedule whose words so far are given newest first. -/
def extend (next : List UInt32 → UInt32) : Nat → List UInt32 → List UInt32
  | 0, ws => ws
  | n + 1, ws => extend next n (next ws :: ws)

/-- The word `i` places back, one place back being the newest. -/
def back (ws : List UInt32) (i : Nat) : UInt32 := ws.getD (i - 1) 0

/-! ## SHA-256 -/

structure State256 where
  a : UInt32
  b : UInt32
  c : UInt32
  d : UInt32
  e : UInt32
  f : UInt32
  g : UInt32
  h : UInt32

def initial256 : State256 :=
  ⟨0x6a09e667, 0xbb67ae85, 0x3c6ef372, 0xa54ff53a, 0x510e527f, 0x9b05688c, 0x1f83d9ab, 0x5be0cd19⟩

def constants256 : List UInt32 :=
  [0x428a2f98, 0x71374491, 0xb5c0fbcf, 0xe9b5dba5, 0x3956c25b, 0x59f111f1, 0x923f82a4, 0xab1c5ed5,
   0xd807aa98, 0x12835b01, 0x243185be, 0x550c7dc3, 0x72be5d74, 0x80deb1fe, 0x9bdc06a7, 0xc19bf174,
   0xe49b69c1, 0xefbe4786, 0x0fc19dc6, 0x240ca1cc, 0x2de92c6f, 0x4a7484aa, 0x5cb0a9dc, 0x76f988da,
   0x983e5152, 0xa831c66d, 0xb00327c8, 0xbf597fc7, 0xc6e00bf3, 0xd5a79147, 0x06ca6351, 0x14292967,
   0x27b70a85, 0x2e1b2138, 0x4d2c6dfc, 0x53380d13, 0x650a7354, 0x766a0abb, 0x81c2c92e, 0x92722c85,
   0xa2bfe8a1, 0xa81a664b, 0xc24b8b70, 0xc76c51a3, 0xd192e819, 0xd6990624, 0xf40e3585, 0x106aa070,
   0x19a4c116, 0x1e376c08, 0x2748774c, 0x34b0bcb5, 0x391c0cb3, 0x4ed8aa4a, 0x5b9cca4f, 0x682e6ff3,
   0x748f82ee, 0x78a5636f, 0x84c87814, 0x8cc70208, 0x90befffa, 0xa4506ceb, 0xbef9a3f7, 0xc67178f2]

def next256 (ws : List UInt32) : UInt32 :=
  let x := back ws 15
  let y := back ws 2
  let s0 := rotr x 7 ^^^ rotr x 18 ^^^ x >>> 3
  let s1 := rotr y 17 ^^^ rotr y 19 ^^^ y >>> 10
  back ws 16 + s0 + back ws 7 + s1

def round256 (s : State256) (kw : UInt32 × UInt32) : State256 :=
  let s1 := rotr s.e 6 ^^^ rotr s.e 11 ^^^ rotr s.e 25
  let ch := (s.e &&& s.f) ^^^ (~~~s.e &&& s.g)
  let t1 := s.h + s1 + ch + kw.1 + kw.2
  let s0 := rotr s.a 2 ^^^ rotr s.a 13 ^^^ rotr s.a 22
  let maj := (s.a &&& s.b) ^^^ (s.a &&& s.c) ^^^ (s.b &&& s.c)
  ⟨t1 + (s0 + maj), s.a, s.b, s.c, s.d + t1, s.e, s.f, s.g⟩

def compress256 (s : State256) (block : List UInt32) : State256 :=
  let t := (constants256.zip (extend next256 48 block.reverse).reverse).foldl round256 s
  ⟨s.a + t.a, s.b + t.b, s.c + t.c, s.d + t.d, s.e + t.e, s.f + t.f, s.g + t.g, s.h + t.h⟩

def sha256 (m : List UInt8) : List UInt8 :=
  let s := (messageBlocks m).foldl compress256 initial256
  bytes s.a ++ bytes s.b ++ bytes s.c ++ bytes s.d ++ bytes s.e ++ bytes s.f ++ bytes s.g ++ bytes s.h

theorem length_sha256 (m : List UInt8) : (sha256 m).length = 32 := rfl

/-! ## HMAC -/

/-- A key of the length of a block. -/
def hmacKey (key : List UInt8) : List UInt8 :=
  let key := if key.length > 64 then sha256 key else key
  key ++ List.replicate (64 - key.length) 0

def hmac256 (key m : List UInt8) : List UInt8 :=
  sha256 ((hmacKey key).map (· ^^^ 0x5c) ++ sha256 ((hmacKey key).map (· ^^^ 0x36) ++ m))

theorem length_hmac256 (key m : List UInt8) : (hmac256 key m).length = 32 := rfl

/-- A key of zeros is no key. -/
theorem hmac256_zeros (m : List UInt8) : hmac256 (List.replicate 32 0) m = hmac256 [] m := by
  have hkey : hmacKey (List.replicate 32 0) = hmacKey [] := by decide
  rw [hmac256, hmac256, hkey]

/-! ## SHA-1 -/

structure State1 where
  a : UInt32
  b : UInt32
  c : UInt32
  d : UInt32
  e : UInt32

def initial1 : State1 := ⟨0x67452301, 0xefcdab89, 0x98badcfe, 0x10325476, 0xc3d2e1f0⟩

def next1 (ws : List UInt32) : UInt32 := rotl (back ws 3 ^^^ back ws 8 ^^^ back ws 14 ^^^ back ws 16) 1

def round1 (s : State1) (iw : UInt32 × Nat) : State1 :=
  let fk : UInt32 × UInt32 :=
    if iw.2 < 20 then ((s.b &&& s.c) ||| (~~~s.b &&& s.d), 0x5a827999)
    else if iw.2 < 40 then (s.b ^^^ s.c ^^^ s.d, 0x6ed9eba1)
    else if iw.2 < 60 then ((s.b &&& s.c) ||| (s.b &&& s.d) ||| (s.c &&& s.d), 0x8f1bbcdc)
    else (s.b ^^^ s.c ^^^ s.d, 0xca62c1d6)
  ⟨rotl s.a 5 + fk.1 + s.e + fk.2 + iw.1, s.a, rotl s.b 30, s.c, s.d⟩

def compress1 (s : State1) (block : List UInt32) : State1 :=
  let t := ((extend next1 64 block.reverse).reverse.zipIdx).foldl round1 s
  ⟨s.a + t.a, s.b + t.b, s.c + t.c, s.d + t.d, s.e + t.e⟩

def sha1 (m : List UInt8) : List UInt8 :=
  let s := (messageBlocks m).foldl compress1 initial1
  bytes s.a ++ bytes s.b ++ bytes s.c ++ bytes s.d ++ bytes s.e

theorem length_sha1 (m : List UInt8) : (sha1 m).length = 20 := rfl

end Sha
