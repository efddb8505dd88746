import Mikaki.Lib.Dialogue
import Mikaki.Lib.Text

/-!
# Reading a card

The commands that are sent to a My Number card or a driving licence, one after
another, and what becomes of its replies. The transport is the peer of the
program; the parsers of what was read are parameters.
-/

namespace Mikaki.Identity.Card

open Concurrent

abbrev Bytes := List UInt8

def maxEf : Nat := 4096

inductive DocumentType where
  | myNumberCard
  | drivingLicense
  | passport
  deriving DecidableEq

inductive FailureCode where
  | unsupportedPlatform
  | invalidPin
  | invalidPassportAccess
  | passportAuthenticationFailed
  | passportIntegrityFailed
  | readerBusy
  | nfcUnavailable
  | nfcDisabled
  | cancelled
  | readTimeout
  | cardRemoved
  | unsupportedCard
  | pinFailed
  | pinBlocked
  | accessDenied
  | invalidResponse
  | invalidData
  | transportError
  deriving DecidableEq

structure CardFailure where
  code : FailureCode
  remainingRetries : Option UInt8
  deriving DecidableEq

def FailureCode.failure (code : FailureCode) : CardFailure := ⟨code, none⟩

structure CardPreview where
  name : String
  address : String
  birthDate : String
  gender : String
  verification : String
  documentType : DocumentType
  expiryDate : Option String
  backendVerifiable : Bool
  deriving DecidableEq

structure Evidence where
  documentType : DocumentType
  attributes : Bytes
  signature : Bytes
  domicile : Bytes
  photo : Bytes
  deriving DecidableEq

def Evidence.new (documentType : DocumentType) : Evidence := ⟨documentType, [], [], [], []⟩

class Parsers where
  parsePreview : Bytes → Except CardFailure CardPreview
  parseLicense : Bytes → Except CardFailure CardPreview

/-! ## Commands -/

structure ApduCommand where
  cla : UInt8
  ins : UInt8
  p1 : UInt8
  p2 : UInt8
  data : Bytes
  le : Option UInt16
  deriving DecidableEq

namespace ApduCommand

def new (cla ins p1 p2 : UInt8) : ApduCommand := ⟨cla, ins, p1, p2, [], none⟩

def select (aid : Bytes) : ApduCommand := ⟨0x00, 0xa4, 0x04, 0x00, aid, none⟩

def readBinary (p1 p2 : UInt8) (le : UInt16) : ApduCommand := ⟨0x00, 0xb0, p1, p2, [], some le⟩

def withData (self : ApduCommand) (data : Bytes) : ApduCommand := { self with data }

def isExtended (self : ApduCommand) : Bool := self.data.length > 255 || self.le.any fun le => le > 256

/-- The data field and the expected length, in the short form or in the extended one. -/
def body (self : ApduCommand) : Bytes :=
  if self.isExtended = true then
    (if self.data = [] then [] else 0x00 :: .ofNat (self.data.length / 256) :: .ofNat self.data.length :: self.data) ++
    match self.le with
    | none => []
    | some le => (if self.data = [] then ([0x00] : Bytes) else []) ++ [(le >>> 8).toUInt8, le.toUInt8]
  else
    (if self.data = [] then [] else .ofNat self.data.length :: self.data) ++
    match self.le with
    | none => []
    | some le => [if le = 256 then 0x00 else le.toUInt8]

def toBytes (self : ApduCommand) : Bytes := [self.cla, self.ins, self.p1, self.p2] ++ self.body

end ApduCommand

def dfInputSupport : Bytes := [0xd3, 0x92, 0x10, 0x00, 0x31, 0x00, 0x01, 0x01, 0x04, 0x08]

def efInputSupportPin : Bytes := [0x00, 0x11]

def efAttributes : Bytes := [0x00, 0x02]

def dlAid : Bytes := [0xa0, 0, 0, 2, 0x31, 1, 0, 0, 0, 0, 0, 0, 0, 0, 0, 0]

def validPin (pin : String) : Bool := (Text.bytes pin).length == 4 && (Text.bytes pin).all Text.isDigit

def verifyCommand (pin : String) : Bytes := [0, 0x20, 0, 0x80, 4] ++ Text.bytes pin

def selectEfCommand (ef : Bytes) : Bytes := ((ApduCommand.new 0 0xa4 0x02 0x0c).withData ef).toBytes

/-! ## The exchange -/

abbrev Reading (α : Type) := ExceptT CardFailure (Prog Bytes fun _ => Except CardFailure Bytes) α

def transmit (apdu : Bytes) : Reading Bytes := Prog.query apdu fun reply => reply

def validatePin (pin : String) : Reading Unit := Prog.fails (validPin pin = false) FailureCode.invalidPin.failure

def status (sw : UInt16) : CardFailure :=
  if sw &&& 0xfff0 = 0x63c0 then ⟨.pinFailed, some (sw &&& 15).toUInt8⟩
  else if sw = 0x6983 then FailureCode.pinBlocked.failure
  else if sw = 0x6982 then FailureCode.accessDenied.failure
  else if sw = 0x6a82 then FailureCode.unsupportedCard.failure
  else FailureCode.invalidResponse.failure

/-- The last two bytes of a response. -/
def statusWord (response : Bytes) : UInt16 :=
  (response.getD (response.length - 2) 0).toUInt16 <<< 8 ||| (response.getD (response.length - 1) 0).toUInt16

def payload (response : Bytes) : Bytes := response.take (response.length - 2)

/-- At most `n` more commands: a read may be repeated with the length that the card names, and the rest of a reply is fetched. -/
def exchangeLoop (canCorrectLength : Bool) : Nat → Bytes → Bytes → Reading (Bytes × UInt16)
  | 0, _, _ => throw FailureCode.invalidResponse.failure
  | n + 1, cmd, data => do
    let response ← transmit cmd
    if response.length < 2 ∨ response.length > maxEf + 2 then throw FailureCode.invalidResponse.failure
    else if statusWord response >>> 8 = 0x6c ∧ canCorrectLength = true ∧ data = [] then
      if cmd = [] then throw FailureCode.invalidResponse.failure
      else exchangeLoop canCorrectLength n (cmd.dropLast ++ [(statusWord response).toUInt8]) data
    else if data.length + (payload response).length > maxEf then throw FailureCode.invalidResponse.failure
    else if statusWord response >>> 8 = 0x61 then
      exchangeLoop canCorrectLength n [0, 0xc0, 0, 0, (statusWord response).toUInt8] (data ++ payload response)
    else return (data ++ payload response, statusWord response)

def exchange (cmd : Bytes) : Reading (Bytes × UInt16) := exchangeLoop (cmd[1]? = some 0xb0) 16 cmd []

def checked (cmd : Bytes) : Reading Bytes := do
  let got ← exchange cmd
  if got.2 ≠ 0x9000 then throw (status got.2) else return got.1

def selectEf (ef : Bytes) : Reading Unit := do
  let _ ← checked (selectEfCommand ef)

def selectInputSupport : Reading Unit := do
  let _ ← checked ((ApduCommand.new 0 0xa4 4 0x0c).withData dfInputSupport).toBytes

/-- The chunks behind `data`; a short one ends the file. -/
def readChunks (data : Bytes) : Reading Bytes := do
  if _hd : maxEf ≤ data.length then throw FailureCode.invalidData.failure
  else
    let offset := UInt16.ofNat data.length
    let got ← exchange (ApduCommand.readBinary (offset >>> 8).toUInt8 offset.toUInt8 0).toBytes
    if got.2 = 0x6b00 ∧ data ≠ [] ∧ got.1 = [] then return data
    else if got.2 ≠ 0x9000 ∧ got.2 ≠ 0x6282 then throw (status got.2)
    else if data.length + got.1.length > maxEf then throw FailureCode.invalidData.failure
    else if _hs : got.2 = 0x6282 ∨ got.1.length < 256 then return data ++ got.1
    else readChunks (data ++ got.1)
termination_by maxEf - data.length
decreasing_by
  simp only [not_or, not_lt] at _hs
  rw [List.length_append]
  omega

def readEf (ef : Bytes) : Reading Bytes := do
  selectEf ef
  readChunks []

def verifyPin (pin : String) : Reading Unit := do
  let _ ← checked (verifyCommand pin)

/-! ## Documents -/

section
variable [Parsers]

/-- What `read_mnc` sends once the PIN is known to be well formed. -/
def readAttributes (pin : String) : Reading Bytes := do
  selectInputSupport
  selectEf efInputSupportPin
  verifyPin pin
  readEf efAttributes

def readMnc (pin : String) : Reading CardPreview := do
  validatePin pin
  let raw ← readAttributes pin
  ExceptT.mk (pure (Parsers.parsePreview raw))

def readMyNumberCard (pin : String) : Reading (CardPreview × Evidence) := do
  selectInputSupport
  selectEf efInputSupportPin
  verifyPin pin
  let attributes ← readEf [0, 2]
  let signature ← readEf [0, 3]
  let preview ← ExceptT.mk (pure (Parsers.parsePreview attributes))
  return (preview, { Evidence.new .myNumberCard with attributes, signature })

/-- A PIN of a licence is verified behind its own file under the master file. -/
def verifyLicensePin (id : UInt8) (value : String) : Reading Unit := do
  let _ ← checked [0, 0xa4, 0, 0]
  selectEf [0, id]
  verifyPin value

/-- The domicile and the photo, which the second PIN opens. -/
def readGuarded (evidence : Evidence) : Reading Evidence := do
  let domicile ← readEf [0, 2]
  let _ ← checked (ApduCommand.select (dlAid.set 5 2)).toBytes
  let photo ← readEf [0, 1]
  return { evidence with domicile, photo }

def verifyLicensePins (pin : String) (pin2 : Option String) : Reading Unit := do
  verifyLicensePin 1 pin
  match pin2 with
  | none => pure ()
  | some pin2 => verifyLicensePin 2 pin2

def readLicenseEvidence (pin2 : Option String) : Reading Evidence := do
  let _ ← checked (ApduCommand.select dlAid).toBytes
  let attributes ← readEf [0, 1]
  let signature ← readEf [0, 7]
  let evidence := { Evidence.new .drivingLicense with attributes, signature }
  match pin2 with
  | none => pure evidence
  | some _ => readGuarded evidence

def readDrivingLicense (pin : String) (pin2 : Option String) : Reading (CardPreview × Evidence) := do
  verifyLicensePins pin pin2
  let evidence ← readLicenseEvidence pin2
  let preview ← ExceptT.mk (pure (Parsers.parseLicense evidence.attributes))
  return ({ preview with backendVerifiable := pin2.isSome }, evidence)

def validatePins (pin : String) (pin2 : Option String) : Reading Unit := do
  validatePin pin
  match pin2 with
  | none => pure ()
  | some pin2 => validatePin pin2

/-- Passports have a reader of their own. -/
def readDocument (kind : DocumentType) (pin : String) (pin2 : Option String) : Reading (CardPreview × Evidence) :=
  if kind = .passport then throw FailureCode.unsupportedCard.failure
  else do
    validatePins pin pin2
    match kind with
    | .passport => throw FailureCode.unsupportedCard.failure
    | .myNumberCard => readMyNumberCard pin
    | .drivingLicense => readDrivingLicense pin pin2

end

end Mikaki.Identity.Card
