import Mikaki.Mdoc.Response
import Mikaki.Presentation.Disclosures

/-!
# What a presentation discloses

The disclosures sent are those of the requested names, each once, and the items
sent are those of the requested elements. Whatever else the credential holds,
the response is the same.
-/

namespace Mikaki.Presentation

open Checks
open Mikaki.Vault (Base64 encode64)
open Mikaki.Identity.Wallet (orElse orElse_eq_ok)

/-! ## Claims by their names -/

section
variable {α : Type} {claims other : List (String × α)} {fields : List String}

theorem mem_iff_lookup (hn : (claims.map Prod.fst).Nodup) {name : String} {value : α} :
    (name, value) ∈ claims ↔ claims.lookup name = some value := by
  induction claims with
  | nil => simp
  | cons p claims ih =>
    obtain ⟨first, v⟩ := p
    obtain ⟨hnew, hn⟩ := List.nodup_cons.mp hn
    by_cases he : name = first
    · subst he
      have hno : (name, value) ∉ claims := fun hm => hnew (List.mem_map.mpr ⟨_, hm, rfl⟩)
      simp [hno, eq_comm]
    · rw [List.lookup_cons, beq_false_of_ne he, ← ih hn]
      simp [he]

/-- The claims of the requested names are determined by their values. -/
theorem perm_of_lookup (hn : (claims.map Prod.fst).Nodup) (ho : (other.map Prod.fst).Nodup)
    (h : ∀ name, claims.lookup name = other.lookup name) : claims.Perm other := by
  apply (List.perm_ext_iff_of_nodup hn.of_map ho.of_map).mpr
  rintro ⟨name, value⟩
  rw [mem_iff_lookup hn, mem_iff_lookup ho, h]

theorem lookup_filter (name : String) :
    (claims.filter fun p => p.1 ∈ fields).lookup name = if name ∈ fields then claims.lookup name else none := by
  induction claims with
  | nil => simp
  | cons p claims ih =>
    obtain ⟨first, v⟩ := p
    by_cases hf : first ∈ fields
    · rw [List.filter_cons_of_pos (by simpa using hf), List.lookup_cons, List.lookup_cons, ih]
      by_cases he : name = first
      · rw [he, beq_self_eq_true]
        exact (if_pos hf).symm
      · rw [beq_false_of_ne he]
    · rw [List.filter_cons_of_neg (by simpa using hf), List.lookup_cons, ih]
      by_cases he : name = first
      · rw [he, if_neg hf, if_neg hf]
      · rw [beq_false_of_ne he]

theorem filter_nodup (hn : (claims.map Prod.fst).Nodup) : ((claims.filter fun p => p.1 ∈ fields).map Prod.fst).Nodup :=
  hn.sublist (List.filter_sublist.map _)

end

/-! ## An SD-JWT -/

/-- A disclosure with the claim it is of. -/
structure Disclosed (Value : Type) where
  disclosure : String
  claim : String × Value

section
variable {Value : Type}

def requested (fields : List String) (ds : List (Disclosed Value)) : List (Disclosed Value) :=
  ds.filter fun d => d.claim.1 ∈ fields

def claims (ds : List (Disclosed Value)) : List (String × Value) := ds.map Disclosed.claim

theorem claims_requested (fields : List String) (ds : List (Disclosed Value)) :
    claims (requested fields ds) = (claims ds).filter fun p => p.1 ∈ fields := by
  unfold claims requested
  rw [List.filter_map]
  rfl

variable [Base64] [Serde Value] {fields : List String}

/-- The issuer's token of a credential and its disclosures, of distinct names. -/
structure Reads (credential jwt : String) (ds : List (Disclosed Value)) : Prop where
  parts : ∃ rest, parts credential = jwt :: rest ∧ rest.filter (· ≠ "") = ds.map Disclosed.disclosure
  read : ∀ d ∈ ds, readDisclosure d.disclosure = .ok d.claim
  distinct : ((claims ds).map Prod.fst).Nodup

theorem Reads.unique {credential jwt other : String} {ds es : List (Disclosed Value)} (h : Reads credential jwt ds)
    (h' : Reads credential other es) : jwt = other ∧ ds = es := by
  obtain ⟨rest, hp, hr⟩ := h.parts
  obtain ⟨rest', hp', hr'⟩ := h'.parts
  obtain ⟨rfl, rfl⟩ := List.cons.inj (hp.symm.trans hp')
  refine ⟨rfl, ?_⟩
  have heq := hr.symm.trans hr'
  have hread := h.read
  have hread' := h'.read
  clear h h' hp hp' hr hr'
  induction ds generalizing es with
  | nil => exact (List.map_eq_nil_iff.mp heq.symm).symm
  | cons d ds ih =>
    cases es with
    | nil => cases heq
    | cons e es =>
      obtain ⟨hd, hds⟩ := List.forall_mem_cons.mp hread
      obtain ⟨he, hes⟩ := List.forall_mem_cons.mp hread'
      obtain ⟨h1, h2⟩ := List.cons.inj heq
      obtain ⟨disclosure, claim⟩ := d
      obtain ⟨_, claim'⟩ := e
      cases h1
      cases hd.symm.trans he
      rw [ih h2 hds hes]

theorem selectFrom_ok {seen disclosures sent : List String} {values : List (String × Value)}
    (h : selectFrom fields seen disclosures = .ok (sent, values)) :
    ∃ ds : List (Disclosed Value), disclosures = ds.map Disclosed.disclosure ∧
      (∀ d ∈ ds, readDisclosure d.disclosure = .ok d.claim) ∧ ((claims ds).map Prod.fst).Nodup ∧
      (∀ d ∈ ds, d.claim.1 ∉ seen) ∧ sent = (requested fields ds).map Disclosed.disclosure ∧
      values = claims (requested fields ds) := by
  induction disclosures generalizing seen sent values with
  | nil =>
    cases h
    exact ⟨[], rfl, by simp, List.nodup_nil, by simp, rfl, rfl⟩
  | cons disclosure disclosures ih =>
    simp only [selectFrom, bind_eq_ok, exists_unit, denyIf_eq_ok, pure_eq_ok] at h
    obtain ⟨⟨name, value⟩, hread, hseen, ⟨sent', values'⟩, hrest, h⟩ := h
    obtain ⟨ds, hds, hreads, hn, hnew, rfl, rfl⟩ := ih hrest
    refine ⟨⟨disclosure, (name, value)⟩ :: ds, by rw [hds]; rfl, List.forall_mem_cons.mpr ⟨hread, hreads⟩, ?_, ?_, ?_⟩
    · refine List.nodup_cons.mpr ⟨fun hm => ?_, hn⟩
      obtain ⟨d, hd, he⟩ := List.mem_map.mp (List.map_map ▸ hm)
      exact hnew d hd (he ▸ List.mem_cons_self)
    · exact List.forall_mem_cons.mpr ⟨hseen, fun d hd hm => hnew d hd (List.mem_cons_of_mem _ hm)⟩
    · by_cases hf : name ∈ fields
      · rw [if_pos hf] at h
        cases h
        simp [requested, claims, hf]
      · rw [if_neg hf] at h
        cases h
        simp [requested, hf]

/-- What is sent of a credential, and that nothing requested is missing. -/
theorem selectDisclosures_ok {credential sent : String} {values : List (String × Value)}
    (h : selectDisclosures credential fields = .ok (sent, values)) :
    ∃ jwt, ∃ ds : List (Disclosed Value), Reads credential jwt ds ∧
      sent = join jwt ((requested fields ds).map Disclosed.disclosure) ∧ values = claims (requested fields ds) ∧
      (values.map Prod.fst).Nodup ∧ ∀ name, name ∈ values.map Prod.fst ↔ name ∈ fields := by
  simp only [selectDisclosures, bind_eq_ok, exists_unit, denyIf_eq_ok] at h
  obtain ⟨-, h⟩ := h
  cases hp : parts credential with
  | nil =>
    rw [hp] at h
    cases h
  | cons jwt rest =>
    rw [hp] at h
    simp only [bind_eq_ok, exists_unit, denyIf_eq_ok, pure_eq_ok, Prod.mk.injEq] at h
    obtain ⟨⟨disclosures, values'⟩, hselect, hall, rfl, rfl⟩ := h
    obtain ⟨ds, hds, hreads, hn, -, rfl, rfl⟩ := selectFrom_ok hselect
    refine ⟨jwt, ds, ⟨⟨rest, hp, hds⟩, hreads, hn⟩, rfl, rfl, ?_, fun name => ?_⟩
    · rw [claims_requested]
      exact filter_nodup hn
    · constructor
      · rw [claims_requested]
        intro hm
        obtain ⟨p, hp, rfl⟩ := List.mem_map.mp hm
        simpa using (List.mem_filter.mp hp).2
      · intro hf
        by_contra hno
        refine hall ⟨name, hf, List.lookup_eq_none_iff.mpr fun p hp => ?_⟩
        have hne : name ≠ p.1 := fun he => hno (he ▸ List.mem_map_of_mem hp)
        simpa using hne

end

end Mikaki.Presentation

namespace Mikaki.Mdoc

open Checks Cbor
open Mikaki.Vault (encode64)
open Mikaki.Identity.Wallet (orElse orElse_eq_ok PublicJwk)
open Mikaki.Presentation (lookup_filter filter_nodup perm_of_lookup mem_iff_lookup)

/-! ## An mdoc -/

section
variable {α : Type} {values selected : List (String × α)} {fields : List String}

theorem selectedFrom_ok {seen : List String} (h : selectedFrom values seen fields = .ok selected) :
    selected.map Prod.fst = fields ∧ fields.Nodup ∧ (∀ f ∈ fields, f ∉ seen) ∧
      ∀ p ∈ selected, values.lookup p.1 = some p.2 := by
  induction fields generalizing seen selected with
  | nil =>
    cases h
    exact ⟨rfl, List.nodup_nil, by simp, by simp⟩
  | cons field fields ih =>
    simp only [selectedFrom, bind_eq_ok, exists_unit, denyIf_eq_ok, orElse_eq_ok, pure_eq_ok] at h
    obtain ⟨hseen, value, hvalue, rest, hrest, rfl⟩ := h
    obtain ⟨hfst, hn, hnew, hlookup⟩ := ih hrest
    refine ⟨by rw [List.map_cons, hfst], List.nodup_cons.mpr ⟨fun hm => hnew field hm List.mem_cons_self, hn⟩, ?_, ?_⟩
    · exact List.forall_mem_cons.mpr ⟨hseen, fun f hf hm => hnew f hf (List.mem_cons_of_mem _ hm)⟩
    · exact List.forall_mem_cons.mpr ⟨hvalue, hlookup⟩

/-- The selected values are the values of the requested names. -/
theorem selectedValues_ok (h : selectedValues values fields = .ok selected) (hn : (values.map Prod.fst).Nodup) :
    selected.map Prod.fst = fields ∧ fields.Nodup ∧ (values.filter fun p => p.1 ∈ fields).Perm selected := by
  simp only [selectedValues, bind_eq_ok, exists_unit, denyIf_eq_ok] at h
  obtain ⟨hfst, hd, -, hlookup⟩ := selectedFrom_ok h.2
  have hs : (selected.map Prod.fst).Nodup := by
    rw [hfst]
    exact hd
  refine ⟨hfst, hd, perm_of_lookup (filter_nodup hn) hs fun name => ?_⟩
  rw [lookup_filter]
  by_cases hf : name ∈ fields
  · rw [if_pos hf]
    obtain ⟨p, hp, rfl⟩ := List.mem_map.mp (hfst ▸ hf)
    rw [hlookup p hp]
    exact ((mem_iff_lookup hs).mp hp).symm
  · rw [if_neg hf, eq_comm, List.lookup_eq_none_iff]
    intro p hp
    have hne : name ≠ p.1 := fun he => hf (hfst ▸ he ▸ List.mem_map_of_mem hp)
    simpa using hne

end

section
variable {Key Trust : Type} [Primitives Key Trust] {fields : List String}

/-- The items that are sent are those of the requested elements with their values. -/
theorem requested_claims {items : List Value} {values : List (String × Json.Value)}
    (h : List.Forall₂ (fun item p => itemClaim item = some p) items values) :
    (items.filter (requestedItem fields)).map itemClaim = (values.filter fun p => p.1 ∈ fields).map some := by
  induction h with
  | nil => rfl
  | @cons item p items values hp _ ih =>
    have hname : requestedItem fields item = decide (p.1 ∈ fields) := by
      unfold requestedItem
      rw [itemName_of_claim hp, Option.any_some]
    rw [List.filter_cons, List.filter_cons, hname]
    by_cases hf : p.1 ∈ fields
    · simp [hf, hp, ih]
    · simp [hf, ih]

/-- A response with the issuer's signed part, these items and nothing else of the receipt. -/
def Sends (receipt : Validated) (fields : List String) (signature : List UInt8) (items : List Value) (sent : String) : Prop :=
  ∃ auth device b, get receipt.issuerSigned "issuerAuth" = .ok auth ∧ deviceSigned signature = .ok device ∧
    encode (response (issuerFields fields auth items) device) = .ok b ∧ sent = encode64 b

theorem deviceResponse_ok {receipt : Validated} {transcript signature : List UInt8} {holder : PublicJwk} {sent : String}
    {items : List Value} (hitems : Items receipt items)
    (h : deviceResponse receipt fields transcript signature holder = .ok sent) :
    Sends receipt fields signature (items.filter (requestedItem fields)) sent ∧
      ∃ selected, selectedValues receipt.values fields = .ok selected := by
  simp only [deviceResponse, bind_eq_ok, exists_unit, denyIf_eq_ok, orElse_eq_ok, pure_eq_ok] at h
  obtain ⟨-, selected, hselected, _, -, _, -, _, -, -, spaces, hspaces, xs, ⟨v, hv, hxs⟩, auth, hauth, device, hdevice, b, hb, rfl⟩ := h
  obtain ⟨⟨_, hspaces', hv'⟩, -, -⟩ := hitems
  cases hspaces.symm.trans hspaces'
  cases hv.symm.trans hv'
  cases hxs
  exact ⟨⟨auth, device, b, hauth, hdevice, hb, rfl⟩, selected, hselected⟩

theorem Items.unique {receipt : Validated} {items other : List Value} (h : Items receipt items) (h' : Items receipt other) :
    items = other := by
  obtain ⟨⟨spaces, hspaces, hitems⟩, -, -⟩ := h
  obtain ⟨⟨_, hspaces', hitems'⟩, -, -⟩ := h'
  cases hspaces.symm.trans hspaces'
  cases hitems.symm.trans hitems'
  rfl

end

end Mikaki.Mdoc

namespace Mikaki.Presentation

open Checks
open Mikaki.Mdoc

/-- A presentation sends the requested claims, each once, and nothing that
depends on the others. -/
theorem minimal_disclosure {Value Key Trust : Type} [Serde Value] [Primitives Key Trust] (fields : List String) :
    (∀ credential sent (values : List (String × Value)), selectDisclosures credential fields = .ok (sent, values) →
      ∃ jwt, ∃ ds : List (Disclosed Value), Reads credential jwt ds ∧
        sent = join jwt ((requested fields ds).map Disclosed.disclosure) ∧ values = claims (requested fields ds) ∧
        (values.map Prod.fst).Nodup ∧ ∀ name, name ∈ values.map Prod.fst ↔ name ∈ fields) ∧
    (∀ credential other jwt (ds es : List (Disclosed Value)) out out', Reads credential jwt ds → Reads other jwt es →
      selectDisclosures credential fields = .ok out → selectDisclosures other fields = .ok out' →
      (requested fields ds = requested fields es → out = out') ∧
      ((∀ f ∈ fields, (claims ds).lookup f = (claims es).lookup f) → out.2.Perm out'.2)) ∧
    (∀ credential issuer holder now receipt transcript signature sent, verifyReceipt credential issuer holder now = .ok receipt →
      deviceResponse receipt fields transcript signature holder = .ok sent →
      ∃ items selected, Items receipt items ∧ Sends receipt fields signature (items.filter (requestedItem fields)) sent ∧
        selectedValues receipt.values fields = .ok selected ∧ selected.map Prod.fst = fields ∧ fields.Nodup ∧
        ((items.filter (requestedItem fields)).map itemClaim).Perm (selected.map some)) ∧
    ∀ receipt other items items' transcript signature holder sent sent', Items receipt items → Items other items' →
      get receipt.issuerSigned "issuerAuth" = get other.issuerSigned "issuerAuth" →
      deviceResponse receipt fields transcript signature holder = .ok sent →
      deviceResponse other fields transcript signature holder = .ok sent' →
      (items.filter (requestedItem fields) = items'.filter (requestedItem fields) → sent = sent') ∧
      ((∀ f ∈ fields, receipt.values.lookup f = other.values.lookup f) →
        ((items.filter (requestedItem fields)).map itemClaim).Perm ((items'.filter (requestedItem fields)).map itemClaim)) := by
  refine ⟨fun credential sent values h => selectDisclosures_ok h, ?_, ?_, ?_⟩
  · rintro credential other jwt ds es ⟨sent, values⟩ ⟨sent', values'⟩ hds hes h h'
    obtain ⟨_, _, hds', rfl, rfl, hn, -⟩ := selectDisclosures_ok h
    obtain ⟨_, _, hes', rfl, rfl, hn', -⟩ := selectDisclosures_ok h'
    obtain ⟨rfl, rfl⟩ := hds.unique hds'
    obtain ⟨rfl, rfl⟩ := hes.unique hes'
    refine ⟨fun he => by rw [he], fun hl => perm_of_lookup hn hn' fun name => ?_⟩
    rw [claims_requested, claims_requested, lookup_filter, lookup_filter]
    by_cases hf : name ∈ fields
    · rw [if_pos hf, if_pos hf, hl name hf]
    · rw [if_neg hf, if_neg hf]
  · intro credential issuer holder now receipt transcript signature sent hreceipt h
    obtain ⟨items, hitems⟩ := verifyReceipt_items hreceipt
    obtain ⟨hsends, selected, hselected⟩ := deviceResponse_ok hitems h
    obtain ⟨hfst, hd, hperm⟩ := selectedValues_ok hselected hitems.2.1
    refine ⟨items, selected, hitems, hsends, hselected, hfst, hd, ?_⟩
    rw [requested_claims hitems.2.2]
    exact hperm.map some
  · intro receipt other items items' transcript signature holder sent sent' hitems hitems' hauth h h'
    obtain ⟨⟨auth, device, b, ha, hdevice, hb, rfl⟩, -⟩ := deviceResponse_ok hitems h
    obtain ⟨⟨_, _, b', ha', hdevice', hb', rfl⟩, -⟩ := deviceResponse_ok hitems' h'
    cases ha.symm.trans (hauth.trans ha')
    cases hdevice.symm.trans hdevice'
    refine ⟨fun he => ?_, fun hl => ?_⟩
    · rw [he] at hb
      cases hb.symm.trans hb'
      rfl
    · rw [requested_claims hitems.2.2, requested_claims hitems'.2.2]
      refine (perm_of_lookup (filter_nodup hitems.2.1) (filter_nodup hitems'.2.1) fun name => ?_).map some
      rw [lookup_filter, lookup_filter]
      by_cases hf : name ∈ fields
      · rw [if_pos hf, if_pos hf, hl name hf]
      · rw [if_neg hf, if_neg hf]

/-! ## A credential with two disclosures -/

namespace Two

def first : String := "WyJzIiwibmFtZSIsIkEiXQ"

def second : String := "WyJ0IiwiYWRkcmVzcyIsIkIiXQ"

@[reducible] def serde : Serde Json.Value where
  fromSlice bytes := Json.parse (String.ofList (bytes.map fun b => Char.ofNat b.toNat))
  asArray
    | .arr vs => some vs
    | _ => none
  asStr := Json.Value.asStr

/-- The two disclosures are decoded; nothing else is. -/
@[reducible] def primitives : Primitives Unit Unit where
  decode64 s :=
    if s = first then some (Text.bytes "[\"s\",\"name\",\"A\"]")
    else if s = second then some (Text.bytes "[\"t\",\"address\",\"B\"]") else none
  encode64 _ := ""
  parse _ := none
  asStr _ := ""
  queryPairs _ := []
  appendPair url _ _ := url
  onCurve _ := false
  verify _ _ _ _ := .error "invalid_proof"
  intoWriter _ := none
  fromReader _ := none
  fromUnix _ := none
  toUnix _ := none
  publicJwk _ := ⟨"", "", "", ""⟩
  sign _ _ := []
  isSignature _ := false
  verifies _ _ _ := false
  fromDer _ := none
  jsonWriter _ := none
  jsonReader _ := none

def credential : String := join "h.p.s" [first, second]

end Two

open Two in
/-- Of two disclosures one is sent. -/
theorem minimal_disclosure_name :
    letI := primitives
    letI := serde
    ∃ jwt, ∃ ds : List (Disclosed Json.Value), Reads credential jwt ds ∧
      join "h.p.s" [first] = join jwt ((requested ["name"] ds).map Disclosed.disclosure) := by
  let _ := primitives
  let _ := serde
  have hmap : (selectDisclosures credential ["name"]).map Prod.fst = .ok (join "h.p.s" [first]) := by decide +kernel
  cases h : selectDisclosures credential ["name"] with
  | error e =>
    rw [h] at hmap
    cases hmap
  | ok out =>
    rw [h] at hmap
    obtain ⟨sent, values⟩ := out
    obtain ⟨jwt, ds, hreads, hsent, -⟩ :=
      (@minimal_disclosure Json.Value Unit Unit serde primitives ["name"]).1 credential sent values h
    exact ⟨jwt, ds, hreads, (Except.ok.inj hmap).symm.trans hsent⟩

end Mikaki.Presentation
