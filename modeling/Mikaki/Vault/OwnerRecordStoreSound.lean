import Mikaki.Vault.OwnerRecordStore

/-!
# What an owner saves is read back

Each mutation that a browser prepares is admitted by the service, and its
answer is taken; what is read back afterwards is opened to what was saved.
-/

namespace Mikaki.Vault.OwnerRecordStore
open Records Checks Rows Transactions
open Browser (Bytes Primitives OwnerKeyContext OwnerRecordContext OwnerRecord CryptoKey orThrow)
open Json (Value)

/-! ## Revisions -/

theorem toList_toString (n : Nat) : (toString (n : Int)).toList = Nat.toDigits 10 n := by
  show (Nat.repr n).toList = _
  rw [Nat.repr, String.toList_ofList]

theorem unquote_quoted (n : Nat) : Request.unquote (quoted n) = some (toString (n : Int)) := by
  have hlist : (quoted n).toList = Request.quote :: ((toString (n : Int)).toList ++ [Request.quote]) := by
    rw [quoted, String.toList_ofList]
    rfl
  unfold Request.unquote
  rw [hlist]
  simp

theorem digits_toString (n : Nat) : (toString (n : Int)).toList ≠ [] ∧ (toString (n : Int)).toList.all Char.isDigit = true := by
  rw [toList_toString]
  exact ⟨Nat.toDigits_ne_nil, List.all_eq_true.mpr fun c hc => Nat.isDigit_of_mem_toDigits (by omega) (by omega) hc⟩

theorem parseInteger_toString {n : Nat} (h : n < 2 ^ 63) : Request.parseInteger (toString (n : Int)) = some (n : Int) := by
  obtain ⟨hne, hdigits⟩ := digits_toString n
  have hvalue : (toString (n : Int)).toList.foldl (fun n c => 10 * n + (c.toNat - 48)) 0 = n := by
    rw [toList_toString]
    exact Nat.ofDigitChars_ten_toDigits
  obtain ⟨c, cs, hcs, hc⟩ := Json.digit_head n
  have hlist : (toString (n : Int)).toList = c :: cs := (toList_toString n).trans hcs
  rw [hlist] at hne hdigits hvalue
  have hminus : c ≠ '-' := by
    rintro rfl
    exact absurd hc (by decide)
  have hplus : c ≠ '+' := by
    rintro rfl
    exact absurd hc (by decide)
  unfold Request.parseInteger
  rw [hlist]
  simp only
  split
  · rename_i heq
    exact absurd (List.cons.inj heq).1 hminus
  · rename_i heq
    exact absurd (List.cons.inj heq).1 hplus
  · rw [if_pos ⟨hne, hdigits⟩, hvalue, Option.bind_some, if_pos h]

theorem tagNumber_quoted {n : Nat} (h : 1 ≤ n ∧ n ≤ Browser.maxSafe) : tagNumber (some (quoted n)) = some n := by
  obtain ⟨hne, hdigits⟩ := digits_toString n
  have hhead : (toString (n : Int)).toList.head? ≠ some '0' := by
    rw [toList_toString]
    exact Json.head_toDigits n h.1
  have hvalue : Nat.ofDigitChars 10 (toString (n : Int)).toList 0 = n := by
    rw [toList_toString]
    exact Nat.ofDigitChars_ten_toDigits
  have hcond : (toString (n : Int)).toList ≠ [] ∧ (toString (n : Int)).toList.all Char.isDigit = true ∧
      (toString (n : Int)).toList.head? ≠ some '0' ∧ Nat.ofDigitChars 10 (toString (n : Int)).toList 0 ≤ Browser.maxSafe := by
    rw [hvalue]
    exact ⟨hne, hdigits, hhead, h.2⟩
  unfold tagNumber
  rw [Option.bind_eq_bind, Option.bind_some, unquote_quoted, Option.bind_some]
  simp only
  rw [if_pos hcond, hvalue]

/-- What the service takes a revision for. -/
def expectedOf (n : Nat) : Int := if n = 0 then -1 else n

theorem expectedRevision_request (operation : PreparedOwnerMutation) (h : operation.expectedRevision < Browser.maxSafe) (origin cookie : String)
    (clock : Nat → Option Nat) : (operation.request origin cookie clock).expectedRevision = some (expectedOf operation.expectedRevision) := by
  have hmax : Browser.maxSafe = 9007199254740991 := rfl
  unfold Request.expectedRevision expectedOf PreparedOwnerMutation.request
  by_cases hzero : operation.expectedRevision = 0
  · simp [hzero]
  · have hpos : (operation.expectedRevision : Int) > 0 ∧ (operation.expectedRevision : Int) < 9007199254740991 := by omega
    simp only [if_neg hzero, Option.isSome_none, Bool.false_eq_true, false_and, if_false, reduceCtorEq]
    rw [Option.bind_eq_bind, Option.bind_some, unquote_quoted, Option.bind_some, parseInteger_toString (by omega)]
    exact if_pos hpos

theorem nextRevision_expectedOf (n : Nat) : nextRevision (expectedOf n) = (n : Int) + 1 := by
  unfold nextRevision expectedOf
  split
  · split <;> omega
  · split <;> omega

/-! ## Bodies -/

/-- The fields of a body, as the service reads them. -/
def fieldsOf (lease : Lease) (item : OwnerRecordContext) : DeleteBody :=
  { formatVersion := 2, vaultId := lease.context.vaultId, keyGeneration := lease.context.keyGeneration, ownerKeyRevision := lease.revision
    kind := item.kind, revision := item.revision }

/-- The numbers of a body are below the bound of the service's integers. -/
structure Bounded (lease : Lease) (item : OwnerRecordContext) : Prop where
  keyGeneration : 1 ≤ lease.context.keyGeneration ∧ lease.context.keyGeneration ≤ Browser.maxSafe
  revision : 1 ≤ lease.revision ∧ lease.revision ≤ Browser.maxSafe
  item : 1 ≤ item.revision ∧ item.revision ≤ Browser.maxSafe

theorem Bounded.lt {lease : Lease} {item : OwnerRecordContext} (h : Bounded lease item) :
    lease.context.keyGeneration < 2 ^ 63 ∧ lease.revision < 2 ^ 63 ∧ item.revision < 2 ^ 63 := by
  have hmax : Browser.maxSafe < 2 ^ 63 := by decide
  have hgeneration := h.keyGeneration
  have hrevision := h.revision
  have hitem := h.item
  omega

theorem asNum_of_lt {n bound : Nat} (h : n < bound) : (Value.num n).asNum bound = some n := if_pos h

theorem members_of {f : String → Option Value} {value : DeleteBody} (hformat : f "format_version" = some (.num value.formatVersion))
    (hvault : f "vault_id" = some (.str value.vaultId)) {n m k : Nat} (hgeneration : f "key_generation" = some (.num n))
    (hrevision : f "owner_key_revision" = some (.num m)) (hkind : f "kind" = some (.str value.kind)) (hitem : f "revision" = some (.num k))
    (hn : n < 2 ^ 63 ∧ (n : Int) = value.keyGeneration) (hm : m < 2 ^ 63 ∧ (m : Int) = value.ownerKeyRevision)
    (hk : k < 2 ^ 63 ∧ (k : Int) = value.revision) (hf : value.formatVersion < 2 ^ 8) : DeleteBody.members f = some value := by
  unfold DeleteBody.members
  rw [hformat, hvault, hgeneration, hrevision, hkind, hitem]
  simp only [Option.bind_eq_bind, Option.bind_some, asNum_of_lt hf, asNum_of_lt hn.1, asNum_of_lt hm.1, asNum_of_lt hk.1, hn.2, hm.2, hk.2]
  rfl

theorem fields_obj {names : List String} {ms : List (String × Value)} (h : (ms.map Prod.fst).Nodup ∧ ∀ k ∈ ms.map Prod.fst, k ∈ names) :
    Json.fields names (.obj ms) = some fun k => ms.lookup k := if_pos h

theorem read_deleteBody {lease : Lease} {item : OwnerRecordContext} (h : Bounded lease item) :
    DeleteBody.read (deleteBody lease item) = some (fieldsOf lease item) := by
  obtain ⟨hgeneration, hrevision, hitem⟩ := h.lt
  unfold DeleteBody.read deleteBody
  rw [fields_obj (by simp), Option.bind_eq_bind, Option.bind_some]
  exact members_of (by simp [List.lookup, fieldsOf]) (by simp [List.lookup, fieldsOf]) (by simp [List.lookup]) (by simp [List.lookup])
    (by simp [List.lookup, fieldsOf]) (by simp [List.lookup]) ⟨hgeneration, rfl⟩ ⟨hrevision, rfl⟩ ⟨hitem, rfl⟩ (show 2 < 2 ^ 8 by decide)

theorem read_putBody {lease : Lease} {item : OwnerRecordContext} (h : Bounded lease item) (record : OwnerRecord) :
    PutBody.read (Browser.putBody lease.context lease.revision item record) =
      some { fieldsOf lease item with ciphertext := record.ciphertext, keyEnvelope := record.keyEnvelope } := by
  obtain ⟨hgeneration, hrevision, hitem⟩ := h.lt
  unfold PutBody.read Browser.putBody
  rw [fields_obj (by simp), Option.bind_eq_bind, Option.bind_some]
  have hmembers : DeleteBody.members (fun k => List.lookup k [("format_version", Value.num 2), ("vault_id", .str lease.context.vaultId),
      ("key_generation", .num lease.context.keyGeneration), ("owner_key_revision", .num lease.revision), ("kind", .str item.kind),
      ("revision", .num item.revision), ("ciphertext", .str record.ciphertext), ("key_envelope", .str record.keyEnvelope)]) =
      some (fieldsOf lease item) :=
    members_of (by simp [List.lookup, fieldsOf]) (by simp [List.lookup, fieldsOf]) (by simp [List.lookup]) (by simp [List.lookup])
      (by simp [List.lookup, fieldsOf]) (by simp [List.lookup]) ⟨hgeneration, rfl⟩ ⟨hrevision, rfl⟩ ⟨hitem, rfl⟩ (show 2 < 2 ^ 8 by decide)
  rw [hmembers]
  simp [List.lookup, Value.asStr]

/-! ## Sizes -/

theorem width_letters {s : String} (h : Browser.letters 1 128 s = true) : Json.width (Value.str s).chars ≤ 130 := by
  simp only [Browser.letters, Bool.and_eq_true, decide_eq_true_eq, List.all_eq_true] at h
  have hsize := Text.size_ascii fun c hc => Nat.lt_of_le_of_lt (Base64url.urlSafe_range (h.2 c hc)).2 (by decide : 122 < 128)
  rw [Value.chars, Json.literal_plain fun c hc => Json.escape_urlSafe (h.2 c hc), hsize]
  omega

theorem width_safe {n : Nat} (h : n ≤ Browser.maxSafe) : Json.width (Value.num n).chars ≤ 16 := by
  have hmax : Browser.maxSafe < 10 ^ 16 := by decide
  exact Json.width_num (by decide) (by omega)

/-- The identifiers that a body carries. -/
structure Lettered (lease : Lease) (item : OwnerRecordContext) : Prop where
  vault : Browser.letters 1 128 lease.context.vaultId = true
  kind : Browser.letters 1 128 item.kind = true

theorem size_deleteBody {lease : Lease} {item : OwnerRecordContext} (h : Bounded lease item) (hl : Lettered lease item) :
    (deleteBody lease item).render.utf8ByteSize ≤ 1024 := by
  have hkeys : Json.keysWidth ["format_version", "vault_id", "key_generation", "owner_key_revision", "kind", "revision"] = 90 := by decide
  have hwidth := Json.width_obj [("format_version", Value.num 2), ("vault_id", .str lease.context.vaultId),
    ("key_generation", .num lease.context.keyGeneration), ("owner_key_revision", .num lease.revision), ("kind", .str item.kind),
    ("revision", .num item.revision)]
  have htwo : Json.width (Value.num 2).chars ≤ 1 := Json.width_num (by decide) (by decide)
  have hvault := width_letters hl.vault
  have hkind := width_letters hl.kind
  have hgeneration := width_safe h.keyGeneration.2
  have hrevision := width_safe h.revision.2
  have hitem := width_safe h.item.2
  rw [Json.size_render, deleteBody]
  simp only [List.map_cons, List.map_nil, Json.valuesWidth, List.sum_cons, List.sum_nil, hkeys] at hwidth
  omega

theorem size_putBody {lease : Lease} {item : OwnerRecordContext} (h : Bounded lease item) (hl : Lettered lease item) {body envelope : Bytes}
    (henvelope : envelope.length = 61) :
    (Browser.putBody lease.context lease.revision item ⟨Base64url.encode body, Base64url.encode envelope⟩).render.utf8ByteSize ≤
      520 + (4 * body.length + 2) / 3 := by
  have hkeys : Json.keysWidth ["format_version", "vault_id", "key_generation", "owner_key_revision", "kind", "revision", "ciphertext",
      "key_envelope"] = 120 := by decide
  have hwidth := Json.width_obj [("format_version", Value.num 2), ("vault_id", .str lease.context.vaultId),
    ("key_generation", .num lease.context.keyGeneration), ("owner_key_revision", .num lease.revision), ("kind", .str item.kind),
    ("revision", .num item.revision), ("ciphertext", .str (Base64url.encode body)), ("key_envelope", .str (Base64url.encode envelope))]
  have htwo : Json.width (Value.num 2).chars ≤ 1 := Json.width_num (by decide) (by decide)
  have hvault := width_letters hl.vault
  have hkind := width_letters hl.kind
  have hgeneration := width_safe h.keyGeneration.2
  have hrevision := width_safe h.revision.2
  have hitem := width_safe h.item.2
  have hbody : Json.width (Value.str (Base64url.encode body)).chars = 2 + (4 * body.length + 2) / 3 := by
    rw [Value.chars]
    exact Json.width_encode body
  have hkey : Json.width (Value.str (Base64url.encode envelope)).chars = 84 := by
    rw [Value.chars, Json.width_encode, henvelope]
  rw [Json.size_render, Browser.putBody]
  simp only [List.map_cons, List.map_nil, Json.valuesWidth, List.sum_cons, List.sum_nil, hkeys, hbody, hkey] at hwidth
  refine Nat.le_trans hwidth ?_
  omega

/-! ## What the service reads in a body -/

theorem letters_of_recordContext {item : OwnerRecordContext} (h : Browser.recordContext item = .ok item) :
    Browser.letters 1 128 item.collectionId = true ∧ Browser.letters 1 128 item.recordId = true ∧ Browser.letters 1 128 item.kind = true ∧
      1 ≤ item.revision ∧ item.revision ≤ Browser.maxSafe := by
  simp only [Browser.recordContext, Browser.id, Browser.positiveNumber, check_bind_eq_ok, denyIf_eq_ok, not_or, Nat.not_lt,
    Bool.not_eq_false] at h
  exact ⟨h.1, h.2.1, h.2.2.1, h.2.2.2.1.1, h.2.2.2.1.2⟩

theorem brought_delete {lease : Lease} {item : OwnerRecordContext} (h : Bounded lease item) (collection : String) :
    brought collection true (deleteBody lease item).render = .ok ⟨fieldsOf lease item, none⟩ := by
  rw [brought, if_pos rfl, Json.parse_render, Option.bind_some, read_deleteBody h]
  rfl

theorem brought_put {lease : Lease} {item : OwnerRecordContext} (h : Bounded lease item) {collection : String} {record : OwnerRecord}
    {body envelope : Bytes} (hbody : frame record.ciphertext 29 (ciphertextLimit collection item.kind) = some body)
    (henvelope : frame record.keyEnvelope 61 61 = some envelope) :
    brought collection false (Browser.putBody lease.context lease.revision item record).render =
      .ok ⟨fieldsOf lease item, some (body, record.keyEnvelope)⟩ := by
  rw [brought, if_neg Bool.false_ne_true, Json.parse_render, Option.bind_some, read_putBody h, answer, ok_bind]
  have hcipher : frame record.ciphertext 29 (ciphertextLimit collection (fieldsOf lease item).kind) = some body := hbody
  simp only [hcipher, henvelope, answer, ok_bind]
  rfl

theorem wanted_of {collection text : String} {deleted : Bool} {lease : Lease} {item : OwnerRecordContext} (h : Bounded lease item)
    (hl : Lettered lease item) {content : Option (Bytes × String)} {expected : Nat} (hitem : item.revision = expected + 1)
    (hbrought : brought collection deleted text = .ok ⟨fieldsOf lease item, content⟩) :
    wanted collection deleted (expectedOf expected) text = .ok ⟨fieldsOf lease item, content⟩ := by
  have hvault : identifier lease.context.vaultId = true := SharedName.isIdentifier_of_letters hl.vault
  have hkind : identifier item.kind = true := SharedName.isIdentifier_of_letters hl.kind
  have hgeneration := h.keyGeneration
  have hrevision := h.revision
  have hmax : (Browser.maxSafe : Int) = Records.maxSafe := rfl
  have hnumbers : inRange (lease.context.keyGeneration : Int) = true ∧ inRange (lease.revision : Int) = true := by
    rw [inRange_eq_true, inRange_eq_true]
    omega
  have hnext : (item.revision : Int) = nextRevision (expectedOf expected) := by
    rw [nextRevision_expectedOf, hitem]
    rfl
  have hallowed : ¬((fieldsOf lease item).formatVersion ≠ 2 ∨ identifier (fieldsOf lease item).vaultId = false ∨
      identifier (fieldsOf lease item).kind = false ∨ inRange (fieldsOf lease item).keyGeneration = false ∨
      inRange (fieldsOf lease item).ownerKeyRevision = false ∨ (fieldsOf lease item).revision ≠ nextRevision (expectedOf expected)) := by
    simp [fieldsOf, hvault, hkind, hnumbers, hnext]
  rw [wanted, hbrought, ok_bind, denyIf, if_neg hallowed]
  rfl

/-! ## Admission -/

section
variable [Primitives]

/-- The service has the session of the cookie, and the owner's key that was leased. -/
structure Leased (d : Db) (lease : Lease) (cookie : String) (clock : Nat → Option Nat) (o : Owner) (root : Root) : Prop where
  context : Browser.ownerKeyContext lease.context = .ok lease.context
  session : ∃ now, clock 0 = some now ∧ d.around.owner (Base64url.encode (Sha.sha256 (Text.bytes cookie))) now = some o
  account : o.accountId = lease.context.ownerId
  rooted : authority d o = some root
  supported : root.supported lease.context.origin = true
  vault : root.vaultId = lease.context.vaultId
  generation : root.keyGeneration = lease.context.keyGeneration
  revision : root.revision = lease.revision
  counted : 1 ≤ lease.revision ∧ lease.revision ≤ Browser.maxSafe

/-- The store has the head that is expected, and room for a write under a new operation and a new key. -/
structure Room (d : Db) (o : Owner) (root : Root) (target : OwnerRecordTarget) (operation : PreparedOwnerMutation) (key : String) : Prop where
  keyed : Keyed d
  unused : ∀ m ∈ d.mutations, m.key ≠ (o.accountId, operation.operationId)
  head : (operation.expectedRevision = 0 ∧ ∀ h ∈ d.heads, h.slot ≠ (o.accountId, root.vaultId, target.collectionId, target.recordId)) ∨
    ∃ h ∈ d.heads, h.slot = (o.accountId, root.vaultId, target.collectionId, target.recordId) ∧ h.revision = operation.expectedRevision ∧
      h.kind = target.kind ∧ h.keyGeneration = root.keyGeneration ∧ (h.deleted = false ∨ operation.method = .put)
  recent : (d.mutations.filter fun m => m.accountId = o.accountId ∧ m.createdAt + 60 > d.clock).length < 20
  slots : operation.expectedRevision > 0 ∨ (d.heads.filter fun h => h.accountId = o.accountId).length < 256
  key : (∀ x ∈ d.candidates, x.objectKey ≠ key) ∧ (∀ o ∈ d.bucket, o.key ≠ key) ∧ ∀ h ∈ d.heads, h.objectKey ≠ some key

/-- A mutation as it is prepared, with what the service reads in its body. -/
structure Sound (target : OwnerRecordTarget) (lease : Lease) (operation : PreparedOwnerMutation) (content : Option (Bytes × String)) : Prop where
  expected : operation.expectedRevision < Browser.maxSafe
  replaces : operation.method = .delete → operation.expectedRevision ≠ 0
  drawn : ∃ bs : Vector UInt8 32, operation.operationId = Base64url.encode bs.toList
  size : operation.body.utf8ByteSize ≤ bodyLimit target.collectionId (decide (operation.method = .delete))
  want : wanted target.collectionId (decide (operation.method = .delete)) (expectedOf operation.expectedRevision) operation.body =
    .ok ⟨fieldsOf lease (target.item (operation.expectedRevision + 1)), content⟩

end

/-- What the service has of a mutation. -/
def PreparedOwnerMutation.admitted (self : PreparedOwnerMutation) (target : OwnerRecordTarget) (lease : Lease) (o : Owner)
    (content : Option (Bytes × String)) : Admitted :=
  ⟨o, expectedOf self.expectedRevision, self.operationId, self.body, fieldsOf lease (target.item (self.expectedRevision + 1)), content⟩

theorem check_eq_ok {target : OwnerRecordTarget} (h : target.check = .ok ()) : Browser.letters 1 128 target.collectionId = true ∧
    Browser.letters 1 128 target.recordId = true ∧ Browser.letters 1 128 target.kind = true := by
  simpa [OwnerRecordTarget.check, denyIf_eq_ok, not_or] using h

theorem operationId_encode {operation : PreparedOwnerMutation} {bs : Vector UInt8 32} (h : operation.operationId = Base64url.encode bs.toList)
    (origin cookie : String) (clock : Nat → Option Nat) :
    (operation.request origin cookie clock).operationId = some operation.operationId := by
  have hlength : bs.toList.length = 32 := Vector.length_toList
  have hletters : Browser.letters 1 128 operation.operationId = true := by
    have := SharedName.letters_encode hlength
    rw [h]
    simp only [Browser.letters, Bool.and_eq_true, decide_eq_true_eq] at this ⊢
    exact ⟨by omega, this.2⟩
  have hidentifier := SharedName.isIdentifier_of_letters hletters
  simp only [Service.isIdentifier, Bool.and_eq_true] at hidentifier
  have hsize : operation.operationId.utf8ByteSize = 43 := by rw [h, Base64url.size_encode, hlength]
  exact if_pos ⟨hsize, hidentifier.2⟩

section
variable [Primitives] {d : Db} {lease : Lease} {cookie : String} {clock : Nat → Option Nat} {o : Owner} {root : Root}
  {target : OwnerRecordTarget} {operation : PreparedOwnerMutation} {content : Option (Bytes × String)} {key : String}

theorem admits_sound (hl : Leased d lease cookie clock o root) (htarget : target.check = .ok ()) (h : Sound target lease operation content) :
    Admits d (operation.request lease.context.origin cookie clock) target.collectionId target.recordId (decide (operation.method = .delete))
      (operation.admitted target lease o content) root := by
  obtain ⟨hcollection, hrecord, -⟩ := check_eq_ok htarget
  obtain ⟨bs, hbs⟩ := h.drawn
  obtain ⟨now, hclock, howner⟩ := hl.session
  have hnamed : identifier target.collectionId = true ∧ identifier target.recordId = true :=
    ⟨SharedName.isIdentifier_of_letters hcollection, SharedName.isIdentifier_of_letters hrecord⟩
  have hexpected := expectedRevision_request operation h.expected lease.context.origin cookie clock
  have hprecondition : ¬((decide (operation.method = .delete) = true ∧ expectedOf operation.expectedRevision = -1) ∨
      (expectedOf operation.expectedRevision > 0 ∧
        (operation.request lease.context.origin cookie clock).ifMatch ≠ some (quoted (expectedOf operation.expectedRevision)))) := by
    have hreplaces := h.replaces
    unfold expectedOf PreparedOwnerMutation.request
    by_cases hzero : operation.expectedRevision = 0
    · simp only [hzero, if_true, decide_eq_true_eq]
      rintro (⟨hm, -⟩ | ⟨hpos, -⟩)
      · exact hreplaces hm hzero
      · omega
    · simp only [if_neg hzero]
      rintro (⟨-, he⟩ | ⟨-, hne⟩)
      · omega
      · exact hne rfl
  exact
    { bucket := rfl, named := ⟨hnamed, hexpected, operationId_encode hbs _ _ _, rfl, h.want⟩, sameOrigin := by simp [Request.sameOrigin, PreparedOwnerMutation.request]
      precondition := hprecondition
      operation := ⟨bs.toList, decode_eq_some.mpr ⟨hbs, by simp, by simp⟩⟩
      owner := ⟨cookie, now, rfl, hclock, howner⟩, json := rfl, size := h.size, rooted := hl.rooted, supported := hl.supported
      vault := hl.vault }

theorem takes_sound (hl : Leased d lease cookie clock o root) (hroom : Room d o root target operation key) :
    Takes d target.collectionId target.recordId (decide (operation.method = .delete)) (operation.admitted target lease o content) root key := by
  refine ⟨hroom.keyed, ⟨hl.generation, hl.revision⟩, hroom.unused, ?_, hroom.recent, ?_, hroom.key⟩
  · rcases hroom.head with ⟨hzero, hfree⟩ | ⟨x, hx, hslot, hrevision, hkind, hgeneration, hlive⟩
    · exact .inl ⟨if_pos hzero, hfree⟩
    · obtain ⟨-, -, -, ⟨hpos, -⟩, -⟩ := hroom.keyed.checked x hx
      have hne : operation.expectedRevision ≠ 0 := by omega
      refine .inr ⟨x, hx, hslot, hrevision.trans (if_neg hne).symm, hkind, hgeneration, hlive.imp_right fun hm => ?_⟩
      simp [hm]
  · refine hroom.slots.imp_left fun hpos => ?_
    show expectedOf operation.expectedRevision > 0
    unfold expectedOf
    rw [if_neg (by omega)]
    omega

/-! ## What is prepared -/

theorem ownerKeyContext_letters {context : OwnerKeyContext} (h : Browser.ownerKeyContext context = .ok context) :
    Browser.letters 1 128 context.vaultId = true ∧ 1 ≤ context.keyGeneration ∧ context.keyGeneration ≤ Browser.maxSafe := by
  unfold Browser.ownerKeyContext at h
  obtain ⟨x, -, h⟩ := bind_eq_ok.mp h
  simp only [Browser.id, Browser.positiveNumber, check_bind_eq_ok, denyIf_eq_ok, not_or, Nat.not_lt, Bool.not_eq_false] at h
  exact ⟨h.2.2.1, h.2.2.2.1⟩

theorem bounded_item (hl : Leased d lease cookie clock o root) (htarget : target.check = .ok ()) {n : Nat} (hn : n < Browser.maxSafe) :
    Bounded lease (target.item (n + 1)) ∧ Lettered lease (target.item (n + 1)) := by
  obtain ⟨hvault, hgeneration⟩ := ownerKeyContext_letters hl.context
  exact ⟨⟨hgeneration, hl.counted, by show 1 ≤ n + 1; omega, by show n + 1 ≤ Browser.maxSafe; omega⟩, ⟨hvault, (check_eq_ok htarget).2.2⟩⟩

theorem prepare_delete (hl : Leased d lease cookie clock o root) (htarget : target.check = .ok ()) {n : Nat} {plaintext : Option Bytes}
    {random : Random} (h : prepare target lease .delete n plaintext random = .ok operation) :
    Sound target lease operation none ∧ operation.method = .delete ∧ operation.expectedRevision = n := by
  unfold prepare at h
  rw [check_bind_eq_ok, denyIf_eq_ok] at h
  obtain ⟨hno, h⟩ := h
  simp only [not_or, not_and, Nat.not_le, ge_iff_le] at hno
  cases h
  obtain ⟨hb, hletters⟩ := bounded_item hl htarget hno.1
  exact ⟨⟨hno.1, fun _ => hno.2 trivial, ⟨random.operation, rfl⟩, size_deleteBody hb hletters,
    wanted_of hb hletters rfl (brought_delete hb target.collectionId)⟩, rfl, rfl⟩

theorem prepare_put (hc : SharedName.Correct) (hl : Leased d lease cookie clock o root) (htarget : target.check = .ok ()) {n : Nat}
    {plaintext : Bytes} {random : Random} (h : prepare target lease .put n (some plaintext) random = .ok operation) :
    ∃ record body, OwnerCrypto.Stored plaintext random.raw record lease.key lease.context (target.item (n + 1)) ∧
      record.ciphertext = Base64url.encode body ∧ Framed target.collectionId target.kind (body, record.keyEnvelope) ∧
      Sound target lease operation (some (body, record.keyEnvelope)) ∧ operation.method = .put ∧ operation.expectedRevision = n := by
  unfold prepare at h
  rw [check_bind_eq_ok, denyIf_eq_ok] at h
  obtain ⟨hno, h⟩ := h
  simp only [not_or, not_and, Nat.not_le, ge_iff_le] at hno
  obtain ⟨_, hplain, hrest⟩ := bind_eq_ok.mp h
  cases hplain
  obtain ⟨record, hseal, hop⟩ := bind_eq_ok.mp hrest
  cases hop
  have hstored := (OwnerCrypto.Kept.sealed hseal).stored hc
  obtain ⟨⟨body, hcipher, hlength, hhead, -⟩, envelope, hkeyText, henvelope, hkeyHead, -⟩ := hstored.parts hc
  obtain ⟨hb, hletters⟩ := bounded_item hl htarget hno.1
  have hfits : body.length ≤ ciphertextLimit target.collectionId target.kind := by
    have hmax := hstored.content.fits
    have hmin : 29 ≤ Browser.recordMaxBytes (target.item (n + 1)) := by
      unfold Browser.recordMaxBytes
      split <;> decide
    have heq : Browser.recordMaxBytes (target.item (n + 1)) = ciphertextLimit target.collectionId target.kind := rfl
    omega
  have hbody : frame record.ciphertext 29 (ciphertextLimit target.collectionId target.kind) = some body :=
    frame_eq_some.mpr ⟨⟨hcipher, by omega, hfits⟩, hhead⟩
  have hframe : frame record.keyEnvelope 61 61 = some envelope :=
    frame_eq_some.mpr ⟨⟨hkeyText, by omega, by omega⟩, hkeyHead⟩
  refine ⟨record, body, hstored, hcipher, ⟨⟨by show 29 ≤ body.length; omega, hfits⟩, hhead, envelope, hframe⟩,
    ⟨hno.1, fun hm => (by cases hm), ⟨random.operation, rfl⟩, ?_, wanted_of hb hletters rfl (brought_put hb hbody hframe)⟩, rfl, rfl⟩
  have hsize := @size_putBody _ _ hb hletters body _ henvelope
  have hrecord : record = ⟨Base64url.encode body, Base64url.encode envelope⟩ := by
    cases record
    exact congrArg₂ OwnerRecord.mk hcipher hkeyText
  show (Browser.putBody lease.context lease.revision (target.item (n + 1)) record).render.utf8ByteSize ≤ bodyLimit target.collectionId false
  rw [hrecord]
  refine Nat.le_trans hsize ?_
  unfold bodyLimit ciphertextLimit at *
  unfold maxWorkspaceCiphertext maxCiphertext maxWorkspaceBody maxBody at *
  by_cases hworkspace : target.collectionId = "workspace-snapshots"
  · simp only [Bool.false_eq_true, if_false, if_pos hworkspace]
    split at hfits <;> omega
  · have hnot : ¬(target.collectionId = "workspace-snapshots" ∧ target.kind = "workspace-snapshot") := fun hw => hworkspace hw.1
    rw [if_neg hnot] at hfits
    simp only [Bool.false_eq_true, if_false, if_neg hworkspace]
    omega

/-! ## Answers -/

theorem Leased.later (hl : Leased d lease cookie clock o root) {e : Db} (he : e.around = d.around ∧ e.roots = d.roots ∧ e.wraps = d.wraps) :
    Leased e lease cookie clock o root := by
  refine { hl with session := ?_, rooted := (authority_congr he o).trans hl.rooted }
  rw [he.1]
  exact hl.session

theorem Leased.reads (hl : Leased d lease cookie clock o root) (htarget : target.check = .ok ()) :
    Reads d (readRequest lease.context.origin cookie clock) target.collectionId target.recordId o root := by
  obtain ⟨hcollection, hrecord, -⟩ := check_eq_ok htarget
  obtain ⟨now, hclock, howner⟩ := hl.session
  exact ⟨rfl, ⟨SharedName.isIdentifier_of_letters hcollection, SharedName.isIdentifier_of_letters hrecord⟩, ⟨cookie, now, rfl, hclock, howner⟩,
    hl.rooted, hl.supported⟩

theorem Leased.origin (hl : Leased d lease cookie clock o root) : root.origin = lease.context.origin := by
  have hsupported := hl.supported
  simp only [Root.supported, Bool.and_eq_true, beq_iff_eq] at hsupported
  exact hsupported.1.1.2

omit [Primitives] in
/-- The answer of a write is taken. -/
theorem commit_outcome {operation : PreparedOwnerMutation} (h : operation.expectedRevision < Browser.maxSafe) :
    commit operation (outcomeResponse (nextRevision (expectedOf operation.expectedRevision), decide (operation.method = .delete))) =
      .ok (operation.expectedRevision + 1, decide (operation.method = .delete)) := by
  have hnext : nextRevision (expectedOf operation.expectedRevision) = ((operation.expectedRevision + 1 : Nat) : Int) :=
    nextRevision_expectedOf _
  have htag := tagNumber_quoted (n := operation.expectedRevision + 1) ⟨by omega, h⟩
  have hrevision : (outcomeResponse (nextRevision (expectedOf operation.expectedRevision), decide (operation.method = .delete))).revision =
      .ok (operation.expectedRevision + 1) := by
    rw [hnext, Response.revision, outcomeResponse, htag]
    rfl
  have hnumber : number "revision" [("revision", Value.num (operation.expectedRevision + 1)), ("deleted", .bool (decide (operation.method = .delete)))] =
      some (operation.expectedRevision + 1) := by simp [number, List.lookup]
  have hflag : flag "deleted" [("revision", Value.num (operation.expectedRevision + 1)), ("deleted", .bool (decide (operation.method = .delete)))] =
      some (decide (operation.method = .delete)) := by simp [flag, List.lookup]
  unfold commit
  rw [hrevision, hnext]
  simp only [outcomeResponse, Int.toNat_natCast, object, ok_bind, hnumber, hflag]
  simp [denyIf, Response.ok]

/-- What the service has of a live record of the leased key is read. -/
theorem read_live (hl : Leased d lease cookie clock o root) {x : HeadRow} {bytes : Bytes} {record : OwnerRecord}
    (hslot : x.accountId = o.accountId ∧ x.kind = target.kind) {n : Nat} (hn : 1 ≤ n ∧ n ≤ Browser.maxSafe) (hrevision : x.revision = n)
    (hcipher : record.ciphertext = Base64url.encode bytes) (henvelope : x.keyEnvelope = some record.keyEnvelope) :
    read target lease (selectedResponse target.collectionId target.recordId (.live root x bytes)) = .ok ⟨n, false, some record⟩ := by
  have htag : (selectedResponse target.collectionId target.recordId (.live root x bytes)).revision = .ok n := by
    rw [Response.revision, selectedResponse, hrevision, tagNumber_quoted hn]
    rfl
  have hgeneration : root.keyGeneration.toNat = lease.context.keyGeneration := by
    rw [hl.generation]
    rfl
  have hkey : root.revision.toNat = lease.revision := by
    rw [hl.revision]
    rfl
  have hnat : x.revision.toNat = n := by
    rw [hrevision]
    rfl
  have hread : readLive target lease (selectedResponse target.collectionId target.recordId (.live root x bytes))
      [("format_version", .num 2), ("owner_id", .str x.accountId), ("origin", .str root.origin), ("vault_id", .str root.vaultId),
        ("key_generation", .num root.keyGeneration.toNat), ("owner_key_revision", .num root.revision.toNat),
        ("collection_id", .str target.collectionId), ("record_id", .str target.recordId), ("kind", .str x.kind),
        ("revision", .num x.revision.toNat), ("ciphertext", .str (Base64url.encode bytes)), ("key_envelope", .str (x.keyEnvelope.getD ""))] =
      .ok ⟨n, false, some record⟩ := by
    rw [readLive, htag]
    simp [text, number, List.lookup, Value.asStr, hslot, hl.account, hl.origin, hl.vault, hgeneration, hkey, hnat, henvelope, denyIf, orThrow]
    rw [← hcipher]
  have hok : (selectedResponse target.collectionId target.recordId (.live root x bytes)).ok = true := rfl
  have hstatus : ¬(selectedResponse target.collectionId target.recordId (.live root x bytes)).status = 404 :=
    (by decide : ¬200 = 404)
  unfold read
  rw [denyIf, if_neg (by simp [hok]), ok_bind]
  refine bind_eq_ok.mpr ⟨_, rfl, ?_⟩
  rw [if_neg hstatus]
  exact hread

omit [Primitives] in
/-- What the service has of a deleted record is read. -/
theorem read_deleted {x : HeadRow} {n : Nat} (hn : 1 ≤ n ∧ n ≤ Browser.maxSafe) (hrevision : x.revision = n) :
    read target lease (selectedResponse target.collectionId target.recordId (.deleted x)) = .ok ⟨n, true, none⟩ := by
  have htag : (selectedResponse target.collectionId target.recordId (.deleted x)).revision = .ok n := by
    rw [Response.revision, selectedResponse, hrevision, tagNumber_quoted hn]
    rfl
  have hmissing : readMissing (selectedResponse target.collectionId target.recordId (.deleted x))
      [("error", .str "not_found"), ("deleted", .bool true)] = .ok ⟨n, true, none⟩ := by
    rw [readMissing, htag]
    simp [text, flag, List.lookup, Value.asStr, denyIf]
  have hstatus : (selectedResponse target.collectionId target.recordId (.deleted x)).status = 404 := rfl
  unfold read
  rw [denyIf, if_neg (by simp [hstatus]), ok_bind]
  refine bind_eq_ok.mpr ⟨_, rfl, ?_⟩
  rw [if_pos hstatus]
  exact hmissing

/-! ## A mutation and its effect -/

/-- The service does what is prepared, the browser takes its answer, and the same request has the same answer again. -/
theorem mutation_done (hl : Leased d lease cookie clock o root) (htarget : target.check = .ok ()) (h : Sound target lease operation content)
    (hroom : Room d o root target operation key) :
    ∃ out e, alone system Failure.server (write (operation.request lease.context.origin cookie clock) target.collectionId target.recordId
        (decide (operation.method = .delete)) key).run d = (.ok out, e) ∧
      commit operation (outcomeResponse out) = .ok (operation.expectedRevision + 1, decide (operation.method = .delete)) ∧
      (∀ key', alone system Failure.server (write (operation.request lease.context.origin cookie clock) target.collectionId target.recordId
        (decide (operation.method = .delete)) key').run e = (.ok out, e)) ∧
      Done d e ((operation.admitted target lease o content).commit target.collectionId target.recordId (decide (operation.method = .delete))
        root key) content := by
  obtain ⟨e, hwrite, hdone⟩ := write_alone (admits_sound hl htarget h) (takes_sound hl hroom)
  have hlater := hl.later hdone.same
  have hclock : e.clock = d.clock := congrArg Accounts.unixepoch hdone.same.1
  have hreceipt := mutation_of hdone.receipt hdone.keyed.mutations (show e.clock ≤ d.clock + retention by omega)
  exact ⟨_, e, hwrite, commit_outcome h.expected, fun key' => retry_alone (admits_sound hlater htarget h) hreceipt rfl, hdone⟩

/-- What an owner saves, the service takes once, and the owner reads it back. -/
theorem saved_read (hc : SharedName.Correct) (hl : Leased d lease cookie clock o root) (htarget : target.check = .ok ()) {n : Nat}
    {plaintext : Bytes} {random : Random} (hprepare : prepare target lease .put n (some plaintext) random = .ok operation)
    (hroom : Room d o root target operation key) :
    ∃ out e, alone system Failure.server (Records.put (operation.request lease.context.origin cookie clock) target.collectionId target.recordId
        key).run d = (.ok out, e) ∧ commit operation (outcomeResponse out) = .ok (n + 1, false) ∧
      (∀ key', alone system Failure.server (Records.put (operation.request lease.context.origin cookie clock) target.collectionId
        target.recordId key').run e = (.ok out, e)) ∧
      ∃ s head, alone system Failure.server (get (readRequest lease.context.origin cookie clock) target.collectionId target.recordId).run e =
          (.ok s, e) ∧ read target lease (selectedResponse target.collectionId target.recordId s) = .ok head ∧ head.revision = n + 1 ∧
        readPlaintext target lease head = .ok plaintext := by
  obtain ⟨record, body, hstored, hcipher, hframed, hsound, hmethod, rfl⟩ := prepare_put hc hl htarget hprepare
  obtain ⟨out, e, hwrite, hcommit, hretry, hdone⟩ := mutation_done hl htarget hsound hroom
  have hdeleted : decide (operation.method = .delete) = false := by simp [hmethod]
  rw [hdeleted] at hwrite hcommit hretry hdone
  refine ⟨out, e, hwrite, hcommit, hretry, ?_⟩
  have hlater := hl.later hdone.same
  obtain ⟨k, b, hkey, hobject, hbytes⟩ := hdone.object _ rfl
  have hhead := (hdone.head (o.accountId, root.vaultId, target.collectionId, target.recordId)).trans (if_pos rfl)
  have hget := get_alone (hlater.reads htarget) hdone.keyed hhead rfl rfl hframed rfl rfl hkey hobject hbytes
  have hrevision : nextRevision (expectedOf operation.expectedRevision) = ((operation.expectedRevision + 1 : Nat) : Int) := nextRevision_expectedOf _
  refine ⟨_, ⟨operation.expectedRevision + 1, false, some record⟩, hget, ?_, rfl, ?_⟩
  · exact read_live hlater ⟨rfl, rfl⟩ ⟨by omega, hsound.expected⟩ hrevision hcipher rfl
  · unfold readPlaintext
    exact hstored.opens hc

/-- What an owner deletes is read as deleted. -/
theorem deleted_read (hl : Leased d lease cookie clock o root) (htarget : target.check = .ok ()) {n : Nat} {plaintext : Option Bytes}
    {random : Random} (hprepare : prepare target lease .delete n plaintext random = .ok operation) (hroom : Room d o root target operation key) :
    ∃ out e, alone system Failure.server (write (operation.request lease.context.origin cookie clock) target.collectionId target.recordId true
        key).run d = (.ok out, e) ∧ commit operation (outcomeResponse out) = .ok (n + 1, true) ∧
      ∃ s, alone system Failure.server (get (readRequest lease.context.origin cookie clock) target.collectionId target.recordId).run e =
          (.ok s, e) ∧ read target lease (selectedResponse target.collectionId target.recordId s) = .ok ⟨n + 1, true, none⟩ := by
  obtain ⟨hsound, hmethod, rfl⟩ := prepare_delete hl htarget hprepare
  obtain ⟨out, e, hwrite, hcommit, -, hdone⟩ := mutation_done hl htarget hsound hroom
  have hdeleted : decide (operation.method = .delete) = true := by simp [hmethod]
  rw [hdeleted] at hwrite hcommit hdone
  have hhead := (hdone.head (o.accountId, root.vaultId, target.collectionId, target.recordId)).trans (if_pos rfl)
  have hget := get_deleted_alone ((hl.later hdone.same).reads htarget) hdone.keyed hhead rfl rfl
  have hrevision : nextRevision (expectedOf operation.expectedRevision) = ((operation.expectedRevision + 1 : Nat) : Int) := nextRevision_expectedOf _
  exact ⟨out, e, hwrite, hcommit, _, hget, read_deleted ⟨by omega, hsound.expected⟩ hrevision⟩

end

namespace Sample

def target : OwnerRecordTarget := ⟨"personal", "name", "name"⟩

def lease : Lease := ⟨SharedName.Sample.key, SharedName.Sample.context, 4⟩

def random : Random := ⟨SharedName.Sample.raw, Vector.replicate 12 6, Vector.replicate 12 7, Vector.replicate 32 8⟩

def owner : Owner := ⟨"owner", Base64url.encode (Sha.sha256 (Text.bytes "secret")), "passkey"⟩

def root : Root := ⟨"vault", "https://v.example", 3, 4, 2, suite, 100⟩

def clock (_ : Nat) : Option Nat := some 100

/-- A store with the session and the key of the owner, and some heads. -/
def db (heads : List HeadRow) : Db :=
  { around :=
      { contexts := [⟨"sso", owner.secretHash⟩], sessions := [⟨"sso", "owner", "passkey", 3, 900, false⟩], boundSessions := []
        accounts := [⟨"owner", 3, true⟩], credentials := [⟨"passkey", "owner", true⟩], unixepoch := 100 }
    roots := [⟨"owner", "vault", "https://v.example", 3, 4, 2, suite, "", ""⟩]
    wraps := [⟨"owner", 3, "passkey", "wrapped"⟩]
    heads, mutations := [], candidates := [], bucket := [], bucketClock := 100000 }

def head : HeadRow :=
  ⟨"owner", "vault", "personal", "name", "name", 1, 3, 2, some "object", some (String.ofList (List.replicate 43 'a')),
    some (String.ofList (List.replicate 82 'b')), false⟩

theorem leased (heads : List HeadRow) : Leased (db heads) lease "secret" clock owner root := by
  have hlive : (db heads).around.live owner.secretHash 100 ⟨"sso", "owner", "passkey", 3, 900, false⟩ :=
    ⟨⟨_, List.mem_singleton_self _, rfl, rfl⟩, rfl, (by decide : 900 > 100), ⟨_, List.mem_singleton_self _, rfl, rfl, rfl⟩,
      _, List.mem_singleton_self _, rfl, rfl, rfl⟩
  have hauthorised : (db heads).around.authorised owner.accountId owner.credentialId owner.secretHash (db heads).clock :=
    ⟨_, List.mem_singleton_self _, rfl, rfl, hlive⟩
  have hbound : ¬∃ ds ∈ (db heads).around.boundSessions, ds.ssoId = "sso" ∧ ds.cookieExpiresAt ≤ 100 := by rintro ⟨ds, hds, -⟩; cases hds
  refine
    { context := rfl, session := ⟨100, rfl, ?_⟩, account := rfl, rooted := ?_, supported := by decide +kernel
      vault := rfl, generation := rfl, revision := rfl, counted := by decide }
  · unfold Accounts.owner
    rw [show (db heads).around.sessions = [⟨"sso", "owner", "passkey", 3, 900, false⟩] from rfl,
      List.find?_cons_of_pos (by exact decide_eq_true ⟨hlive, hbound⟩)]
    rfl
  · unfold authority
    exact (if_pos hauthorised).trans rfl

theorem keyed : Keyed (db []) ∧ Keyed (db [head]) :=
  ⟨⟨.nil, by simp [db], .nil, .nil⟩, ⟨List.pairwise_singleton _ _, by simpa [db] using (by decide : head.Check), .nil, .nil⟩⟩

end Sample

theorem saved_read_sample : ∃ operation out e s head,
    prepare Sample.target Sample.lease .put 0 (some (Text.bytes "Ada")) Sample.random = .ok operation ∧
      alone system Failure.server (Records.put (operation.request "https://v.example" "secret" Sample.clock) "personal" "name" "object").run
        (Sample.db []) = (.ok out, e) ∧ commit operation (outcomeResponse out) = .ok (1, false) ∧
      alone system Failure.server (get (readRequest "https://v.example" "secret" Sample.clock) "personal" "name").run e = (.ok s, e) ∧
      read Sample.target Sample.lease (selectedResponse "personal" "name" s) = .ok head ∧
      readPlaintext Sample.target Sample.lease head = .ok (Text.bytes "Ada") := by
  obtain ⟨operation, hprepare⟩ := ok_of_isOk
    (x := prepare Sample.target Sample.lease .put 0 (some (Text.bytes "Ada")) Sample.random) (by decide +kernel)
  obtain ⟨-, -, -, -, -, -, -, hzero⟩ := prepare_put SharedName.Sample.correct (Sample.leased []) rfl hprepare
  have hroom : Room (Sample.db []) Sample.owner Sample.root Sample.target operation "object" :=
    { keyed := Sample.keyed.1, unused := by simp [Sample.db], head := .inl ⟨hzero, by simp [Sample.db]⟩, recent := by decide
      slots := .inr (by decide), key := by simp [Sample.db] }
  obtain ⟨out, e, hwrite, hcommit, -, s, head, hget, hread, -, hplain⟩ :=
    saved_read SharedName.Sample.correct (Sample.leased []) rfl hprepare hroom
  exact ⟨operation, out, e, s, head, hprepare, hwrite, hcommit, hget, hread, hplain⟩

theorem deleted_read_sample : ∃ operation out e s,
    prepare Sample.target Sample.lease .delete 1 none Sample.random = .ok operation ∧
      alone system Failure.server (write (operation.request "https://v.example" "secret" Sample.clock) "personal" "name" true "").run
        (Sample.db [Sample.head]) = (.ok out, e) ∧ commit operation (outcomeResponse out) = .ok (2, true) ∧
      alone system Failure.server (get (readRequest "https://v.example" "secret" Sample.clock) "personal" "name").run e = (.ok s, e) ∧
      read Sample.target Sample.lease (selectedResponse "personal" "name" s) = .ok ⟨2, true, none⟩ := by
  have hprepare : prepare Sample.target Sample.lease .delete 1 none Sample.random = .ok _ := rfl
  have hroom : Room (Sample.db [Sample.head]) Sample.owner Sample.root Sample.target
      ⟨.delete, 1, Base64url.encode Sample.random.operation.toList, (deleteBody Sample.lease (Sample.target.item 2)).render⟩ "" :=
    { keyed := Sample.keyed.2, unused := by simp [Sample.db]
      head := .inr ⟨_, List.mem_singleton_self _, rfl, rfl, rfl, rfl, .inl rfl⟩, recent := by decide, slots := .inl (by decide)
      key := ⟨by simp [Sample.db], by simp [Sample.db], by simp [Sample.db, Sample.head]⟩ }
  obtain ⟨out, e, hwrite, hcommit, s, hget, hread⟩ := deleted_read (Sample.leased _) rfl hprepare hroom
  exact ⟨_, out, e, s, hprepare, hwrite, hcommit, hget, hread⟩

end Mikaki.Vault.OwnerRecordStore
