import Mikaki.Identity.CardSound

/-!
# An elementary file is read whole

A card hands out a file in chunks of 256 bytes, and a shorter one at its end.
The reader asks for one chunk after another and takes the file once it has met
the end; a file that fills the reader before that is refused.
-/

namespace Mikaki.Identity.Card

open Concurrent Dialogue

/-! ## A card with a file -/

/-- A status word as the last two bytes of a response. -/
def trailer (sw : UInt16) : Bytes := [(sw >>> 8).toUInt8, sw.toUInt8]

section
variable (transport : Steps → Bytes → Except CardFailure Bytes)

/-- The card replies to a command with `chunk` and the status, in at most `n` responses that are fetched one after another. -/
inductive Hands : Nat → Steps → Bytes → Bytes → UInt16 → Prop
  | last {n : Nat} {seen : Steps} {cmd chunk : Bytes} {sw : UInt16} (h : transport seen cmd = .ok (chunk ++ trailer sw)) :
      Hands (n + 1) seen cmd chunk sw
  | more {n : Nat} {seen : Steps} {cmd first rest : Bytes} {le : UInt8} {sw : UInt16}
      (h : transport seen cmd = .ok (first ++ [0x61, le]))
      (hr : Hands n (seen ++ [(cmd, .ok (first ++ [0x61, le]))]) [0, 0xc0, 0, 0, le] rest sw) :
      Hands (n + 1) seen cmd (first ++ rest) sw

/-- A read is answered at once, or after the card has named the length that it wants to be asked for. -/
def Answers (seen : Steps) (cmd chunk : Bytes) (sw : UInt16) : Prop :=
  Hands transport 16 seen cmd chunk sw ∨
    ∃ le, transport seen cmd = .ok [0x6c, le] ∧
      Hands transport 15 (seen ++ [(cmd, .ok [0x6c, le])]) (cmd.dropLast ++ [le]) chunk sw

end

section
variable {transport : Steps → Bytes → Except CardFailure Bytes} {seen : Steps} {cmd chunk data : Bytes} {sw : UInt16}

/-- The statuses that end a read. -/
def Ends (sw : UInt16) : Prop := sw = 0x9000 ∨ sw = 0x6282 ∨ sw = 0x6b00

end

/-! ## One file -/

section
variable {transport : Steps → Bytes → Except CardFailure Bytes} {ef content : Bytes}

end

end Mikaki.Identity.Card
