import Mikaki.Mdoc.Receipt

/-!
# The response of a device

The items of the requested elements are sent with the issuer's signed part, and
the device signs the session. No other item of the receipt is sent.
-/

namespace Mikaki.Mdoc

open Checks Cbor
open Mikaki.Vault (Base64 encode64 decode64)
open Mikaki.Identity
open Mikaki.Identity.Wallet (orElse orElse_eq_ok PublicJwk)

/-- The values of the fields, after the fields `seen`. -/
def selectedFrom {α : Type} (values : List (String × α)) : List String → List String → Except String (List (String × α))
  | _, [] => .ok []
  | seen, field :: fields => do
    denyIf (field ∈ seen) "unsupported_query"
    let value ← orElse "credential_does_not_match" (values.lookup field)
    let rest ← selectedFrom values (field :: seen) fields
    return (field, value) :: rest

def selectedValues {α : Type} (values : List (String × α)) (fields : List String) : Except String (List (String × α)) := do
  denyIf (fields.length > 7) "unsupported_query"
  selectedFrom values [] fields

section
variable [Ciborium]

def deviceAuthentication (transcript : List UInt8) : Except String (List UInt8) := do
  let transcript ← decode transcript
  denyIf ((asArray transcript).all (fun a => a.length ≠ 3) = true) "invalid_transcript"
  let empty ← tag (map [])
  let authentication ← tag (.array [.text "DeviceAuthentication", transcript, .text docType, empty])
  encode authentication

/-- The element that an item is for. -/
def itemName (item : Value) : Option String := do
  let inner ← (embedded item).toOption
  (get inner "elementIdentifier").toOption.bind asText

/-- The element of an item with its value. -/
def itemClaim (item : Value) : Option (String × Json.Value) := do
  let inner ← (embedded item).toOption
  let name ← (get inner "elementIdentifier").toOption.bind asText
  let value ← (get inner "elementValue").toOption.bind (readValue name)
  return (name, value)

def requestedItem (fields : List String) (item : Value) : Bool := (itemName item).any fun name => name ∈ fields

def issuerFields (fields : List String) (auth : Value) (selected : List Value) : Value :=
  map (("issuerAuth", auth) :: if fields = [] then [] else [("nameSpaces", map [(namespace_, .array selected)])])

def deviceSigned (signature : List UInt8) : Except String Value := do
  let empty ← tag (map [])
  let deviceSignature ← sign1 .null (map []) signature
  return map [("nameSpaces", empty), ("deviceAuth", map [("deviceSignature", deviceSignature)])]

def response (issuerSigned deviceSigned : Value) : Value :=
  map [("version", .text "1.0"),
    ("documents", .array [map [("docType", .text docType), ("issuerSigned", issuerSigned), ("deviceSigned", deviceSigned)]]),
    ("status", .int 0)]

end

section
variable {Key Trust : Type} [Primitives Key Trust]

def deviceResponse (receipt : Validated) (fields : List String) (transcript signature : List UInt8) (holder : PublicJwk) :
    Except String String := do
  denyIf (receipt.holder ≠ holder) "invalid_device_key"
  let _ ← selectedValues receipt.values fields
  let payload ← deviceAuthentication transcript
  let _ ← holder.verifyingKey
  let input ← signatureInput payload
  denyIf (Primitives.isSignature signature = false ∨ Primitives.verifies holder input signature = false) "invalid_device_signature"
  let spaces ← get receipt.issuerSigned "nameSpaces"
  let items ← get spaces namespace_ >>= fun v => orElse "invalid_mdoc" (asArray v)
  let selected := items.filter (requestedItem fields)
  let auth ← get receipt.issuerSigned "issuerAuth"
  let device ← deviceSigned signature
  let b ← encode (response (issuerFields fields auth selected) device)
  return encode64 b

end

/-! ## The items of a receipt -/

section
variable {Key Trust : Type} [Primitives Key Trust] {digests : List (Value × Value)} {ids : List Nat}
  {values : List (String × Json.Value)}

omit [Primitives Key Trust] in
theorem itemName_of_claim [Ciborium] {item : Value} {name : String} {value : Json.Value}
    (h : itemClaim item = some (name, value)) : itemName item = some name := by
  simp only [itemClaim, Option.bind_eq_bind, Option.bind_eq_some_iff, Option.pure_def, Option.some.injEq, Prod.mk.injEq] at h
  obtain ⟨inner, hinner, _, hname, _, -, rfl, -⟩ := h
  unfold itemName
  rw [hinner, Option.bind_eq_bind, Option.bind_some]
  exact Option.bind_eq_some_iff.mpr hname

theorem verifyItem_claim {names : List String} {item : Value} {id : Nat} {name : String} {value : Json.Value}
    (h : verifyItem digests ids names item = .ok (id, name, value)) : itemClaim item = some (name, value) ∧ name ∉ names := by
  simp only [verifyItem, bind_eq_ok, exists_unit, denyIf_eq_ok, orElse_eq_ok, not_or, pure_eq_ok, Prod.mk.injEq] at h
  obtain ⟨inner, hinner, _, -, -, _, -, _, -, -, _, -, -, _, ⟨v, hv, hname⟩, ⟨-, hnew⟩, w, hw, _, hvalue, -, rfl, rfl⟩ := h
  refine ⟨?_, hnew⟩
  simp [itemClaim, hinner, hv, hname, hw, hvalue, Except.toOption]

theorem verifyItems_ok {items : List Value} {result : List (String × Json.Value)}
    (h : verifyItems digests ids values items = .ok result) (hn : (values.map Prod.fst).Nodup) :
    (result.map Prod.fst).Nodup ∧ ∃ added, result = values ++ added ∧
      List.Forall₂ (fun item p => itemClaim item = some p) items added := by
  induction items generalizing ids values with
  | nil =>
    cases h
    exact ⟨hn, [], (List.append_nil _).symm, .nil⟩
  | cons item items ih =>
    simp only [verifyItems, bind_eq_ok] at h
    obtain ⟨⟨id, name, value⟩, hitem, h⟩ := h
    obtain ⟨hclaim, hnew⟩ := verifyItem_claim hitem
    have hn' : ((values ++ [(name, value)]).map Prod.fst).Nodup := by
      rw [List.map_append, List.nodup_append]
      refine ⟨hn, List.nodup_singleton _, fun a ha b hb he => hnew ?_⟩
      rw [he, List.mem_singleton.mp hb] at ha
      exact ha
    obtain ⟨hresult, added, rfl, hforall⟩ := ih h hn'
    exact ⟨hresult, (name, value) :: added, by rw [List.append_assoc]; rfl, .cons hclaim hforall⟩

/-- The items of a receipt, in order with its values. -/
def Items (receipt : Validated) (items : List Value) : Prop :=
  (∃ spaces, get receipt.issuerSigned "nameSpaces" = .ok spaces ∧ get spaces namespace_ = .ok (.array items)) ∧
    (receipt.values.map Prod.fst).Nodup ∧ List.Forall₂ (fun item p => itemClaim item = some p) items receipt.values

theorem verifyReceipt_items {credential : String} {issuer holder : PublicJwk} {now : Nat} {receipt : Validated}
    (h : verifyReceipt credential issuer holder now = .ok receipt) : ∃ items, Items receipt items := by
  simp only [verifyReceipt, bind_eq_ok, exists_unit] at h
  obtain ⟨-, _, -, signed, -, ⟨_, mso⟩, -, -, _, -, -, digests, -, spaces, hspaces, h⟩ := h
  cases spaces with
  | map ms =>
    rcases ms with _ | ⟨⟨ns, items⟩, _ | ⟨_, _⟩⟩
    · cases h
    · simp only [asMap, bind_eq_ok, exists_unit, denyIf_eq_ok, orElse_eq_ok, not_not, pure_eq_ok] at h
      obtain ⟨rfl, xs, hxs, -, values, hvalues, _, -, -, -, rfl⟩ := h
      obtain ⟨hn, added, rfl, hforall⟩ := verifyItems_ok hvalues List.nodup_nil
      refine ⟨xs, ⟨_, hspaces, ?_⟩, hn, hforall⟩
      cases items with
      | array ys =>
        cases hxs
        simp [get, orElse]
      | _ => cases hxs
    · cases h
  | _ => cases h

end

end Mikaki.Mdoc
