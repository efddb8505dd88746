import Mikaki.Presentation.Inventory

/-!
# What an inventory answers

A query is available to the selection where its type is in the catalog and some
receipt answers it, and it is taken with the first receipt that does. An
inventory of more receipts, up to the bound, answers no fewer queries.
-/

namespace Mikaki.Presentation

open Checks
open Mikaki.Vault (Base64)
open Mikaki.Identity.Wallet (orElse orElse_eq_ok)

/-! ## One query of many -/

section
variable [Base64] {vcts ids : List String} {query : Query}

theorem matchingCredential_eq_ok {typeMatches : Bool} (h : matchingCredential vcts ids query = .ok typeMatches) :
    matchingCredential vcts [] query = .ok typeMatches ∧ credentialTypeMatches query vcts = .ok typeMatches ∧
      (typeMatches = true → ∃ names, fields query = .ok names) := by
  unfold matchingCredential at h ⊢
  simp only [bind_eq_ok, exists_unit, denyIf_eq_ok, pure_eq_ok, not_or] at h ⊢
  obtain ⟨⟨hid, -, hl⟩, _, htype, ha, hp, hf, rfl⟩ := h
  refine ⟨⟨⟨hid, List.not_mem_nil, hl⟩, _, htype, ha, hp, hf, rfl⟩, htype, fun ht => ?_⟩
  rw [ht, checkFields, if_pos rfl] at hf
  cases hn : fields query with
  | ok names => exact ⟨names, rfl⟩
  | error e =>
    rw [hn] at hf
    cases hf

theorem matchingFrom_mem {available : Nat → Bool} {queries : List Query} {matched : List Bool}
    (h : matchingFrom vcts available ids queries = .ok matched) (hm : query ∈ queries) :
    ∃ typeMatches, matchingCredential vcts [] query = .ok typeMatches := by
  induction queries generalizing available ids matched with
  | nil => cases hm
  | cons first queries ih =>
    simp only [matchingFrom, bind_eq_ok] at h
    obtain ⟨typeMatches, ht, rest, hrest, -⟩ := h
    rcases List.mem_cons.mp hm with rfl | hm
    · exact ⟨typeMatches, (matchingCredential_eq_ok ht).1⟩
    · exact ih hrest hm

theorem Valid.matching {dcql : Dcql} (hv : Valid dcql vcts) (hm : query ∈ dcql.credentials) :
    ∃ typeMatches, matchingCredential vcts [] query = .ok typeMatches := by
  obtain ⟨matched, h⟩ := hv.credentials
  simp only [matchingCredentials, bind_eq_ok, exists_unit] at h
  exact matchingFrom_mem h.2.2 hm

theorem selectSingle {typeMatches : Bool} (h : matchingCredential vcts [] query = .ok typeMatches) :
    selectAvailableTypes ⟨[query], none⟩ vcts none = if typeMatches then .ok [0] else .error unsatisfiedQuery := by
  have hmatch : matchingCredentials ⟨[query], none⟩ vcts none = .ok [typeMatches] := by
    unfold matchingCredentials
    rw [denyIf, if_neg (by simp), ok_bind, denyIf, if_neg (by simp), ok_bind]
    unfold matchingFrom
    rw [h, ok_bind, matchingFrom, ok_bind, Option.all_none, Bool.and_true]
    rfl
  unfold selectAvailableTypes
  rw [hmatch, ok_bind]
  cases typeMatches with
  | true => rfl
  | false => rfl

end

section
variable {Trust Value : Type} [Receipts Trust Value] {self : InventoryRequest} {credentials : List (VerifiedCredential Trust)}
  {now : UInt64}

theorem forall₂_getElem {α β : Type} {R : α → β → Prop} {l : List α} {m : List β} (h : List.Forall₂ R l m) {i : Nat} {a : α}
    (hi : l[i]? = some a) : ∃ b, m[i]? = some b ∧ R a b := by
  induction h generalizing i with
  | nil => cases hi
  | cons hab _ ih =>
    cases i with
    | zero =>
      cases hi
      exact ⟨_, rfl, hab⟩
    | succ i => exact ih hi

/-- The first of a list and its place. -/
theorem find_zipIdx {α : Type} {p : α → Bool} {l : List α} {a : α} {i : Nat} (h : (l.zipIdx.find? fun c => p c.1) = some (a, i)) :
    l[i]? = some a ∧ p a = true ∧ ∀ j < i, ∀ c, l[j]? = some c → p c = false := by
  obtain ⟨hp, j, hj, he, hfirst⟩ := List.find?_eq_some_iff_getElem.mp h
  rw [List.getElem_zipIdx, Prod.mk.injEq, Nat.zero_add] at he
  obtain ⟨rfl, rfl⟩ := he
  rw [List.length_zipIdx] at hj
  refine ⟨List.getElem?_eq_getElem hj, hp, fun k hk c hc => ?_⟩
  obtain ⟨hkl, rfl⟩ := List.getElem?_eq_some_iff.mp hc
  have hk := hfirst k hk
  rw [List.getElem_zipIdx] at hk
  simpa using hk

/-- Whether a receipt answers a query of the request. -/
def Answers (self : InventoryRequest) (now : UInt64) (query : Query) (c : VerifiedCredential Trust) : Prop :=
  ∃ names retained, fields query = .ok (names, retained) ∧
    usable self.vct (self.request.single query names retained) query now c = true

/-- A query with its first receipt. -/
def Taken (self : InventoryRequest) (credentials : List (VerifiedCredential Trust)) (now : UInt64) (query : Query)
    (item : SelectedCredential Trust) : Prop :=
  credentials[item.index]? = some item.credential ∧ Answers self now query item.credential ∧
    (∀ j < item.index, ∀ c, credentials[j]? = some c → ¬Answers self now query c) ∧
    ∃ names retained, fields query = .ok (names, retained) ∧ item.request = self.request.single query names retained

/-- What the candidate of a query is. -/
def Candidate (self : InventoryRequest) (credentials : List (VerifiedCredential Trust)) (now : UInt64) (query : Query)
    (found : Option (SelectedCredential Trust)) : Prop :=
  (found.isSome = true ↔ credentialTypeMatches query (catalog self.vct) = .ok true ∧ ∃ c ∈ credentials, Answers self now query c) ∧
    ∀ item ∈ found, Taken self credentials now query item

theorem candidate_eq {query : Query} {typeMatches : Bool}
    (h : matchingCredential (catalog self.vct) [] query = .ok typeMatches) :
    ∃ found, self.candidate credentials now query = .ok found ∧ Candidate self credentials now query found := by
  unfold Candidate
  rw [(matchingCredential_eq_ok h).2.1]
  unfold InventoryRequest.candidate
  rw [selectSingle h]
  cases typeMatches with
  | false => exact ⟨none, rfl, by simp, by simp⟩
  | true =>
    obtain ⟨-, -, hf⟩ := matchingCredential_eq_ok h
    obtain ⟨⟨names, retained⟩, hnames⟩ := hf rfl
    have hanswers : ∀ c, Answers self now query c ↔
        usable self.vct (self.request.single query names retained) query now c = true := by
      intro c
      unfold Answers
      rw [hnames]
      constructor
      · rintro ⟨_, _, ⟨rfl⟩, hu⟩
        exact hu
      · exact fun hu => ⟨names, retained, rfl, hu⟩
    refine ⟨_, by rw [if_pos rfl]; dsimp only; rw [hnames]; rfl, ?_, ?_⟩
    · rw [Option.isSome_map, List.find?_isSome]
      constructor
      · rintro ⟨⟨c, j⟩, hc, hu⟩
        exact ⟨rfl, c, List.mem_of_getElem? (List.mem_zipIdx_iff_getElem?.mp hc), (hanswers c).mpr hu⟩
      · rintro ⟨-, c, hc, ha⟩
        obtain ⟨j, hj⟩ := List.mem_iff_getElem?.mp hc
        exact ⟨(c, j), List.mem_zipIdx_iff_getElem?.mpr hj, (hanswers c).mp ha⟩
    · intro item hitem
      obtain ⟨⟨c, j⟩, hfind, rfl⟩ := Option.map_eq_some_iff.mp hitem
      obtain ⟨hc, hu, hfirst⟩ := find_zipIdx hfind
      refine ⟨hc, (hanswers c).mpr hu, fun k hk other hother ha => ?_, names, retained, hnames, rfl⟩
      have hno := hfirst k hk other hother
      exact Bool.false_ne_true (hno.symm.trans ((hanswers other).mp ha))

/-- What is available to the selection. -/
theorem candidates_eq (hv : Valid self.request.dcqlQuery (catalog self.vct)) :
    ∃ candidates, collect self.request.dcqlQuery.credentials (self.candidate credentials now) = .ok candidates ∧
      List.Forall₂ (Candidate self credentials now) self.request.dcqlQuery.credentials candidates := by
  have hall : ∀ query ∈ self.request.dcqlQuery.credentials, ∃ typeMatches,
      matchingCredential (catalog self.vct) [] query = .ok typeMatches := fun query hq => hv.matching hq
  generalize self.request.dcqlQuery.credentials = queries at hall ⊢
  induction queries with
  | nil => exact ⟨[], rfl, .nil⟩
  | cons query queries ih =>
    obtain ⟨⟨typeMatches, ht⟩, hrest⟩ := List.forall_mem_cons.mp hall
    obtain ⟨found, hfound, hcandidate⟩ := candidate_eq ht
    obtain ⟨candidates, hcandidates, hforall⟩ := ih hrest
    refine ⟨found :: candidates, by rw [collect, hfound, ok_bind, hcandidates, ok_bind], .cons hcandidate hforall⟩

omit [Receipts Trust Value] in
theorem takeAll_eq {candidates : List (Option (SelectedCredential Trust))} {indices : List Nat} (hd : indices.Nodup)
    (h : ∀ i ∈ indices, (candidates.getD i none).isSome = true) :
    ∃ selected, takeAll candidates indices = .ok selected ∧
      List.Forall₂ (fun i item => candidates.getD i none = some item) indices selected := by
  induction indices generalizing candidates with
  | nil => exact ⟨[], rfl, .nil⟩
  | cons i indices ih =>
    obtain ⟨hi, hrest⟩ := List.forall_mem_cons.mp h
    obtain ⟨hnew, hd⟩ := List.nodup_cons.mp hd
    obtain ⟨item, hitem⟩ := Option.isSome_iff_exists.mp hi
    have hset : ∀ j ∈ indices, (candidates.set i none).getD j none = candidates.getD j none := by
      intro j hj
      have hne : i ≠ j := fun e => hnew (e ▸ hj)
      simp [hne]
    have hsome : ∀ j ∈ indices, ((candidates.set i none).getD j none).isSome = true := fun j hj => by
      rw [hset j hj]
      exact hrest j hj
    obtain ⟨selected, hselected, hforall⟩ := ih hd hsome
    refine ⟨item :: selected, by rw [takeAll, hitem, orElse, ok_bind, hselected, ok_bind]; rfl, .cons hitem ?_⟩
    have hmem := (List.forall₂_and_left (p := (· ∈ indices)) _ _).mpr ⟨fun j hj => hj, hforall⟩
    refine hmem.imp fun j item hj => ?_
    rw [← hset j hj.1]
    exact hj.2

/-- An inventory that is neither empty nor too large, before the request expires. -/
def Admitted (self : InventoryRequest) (credentials : List (VerifiedCredential Trust)) (now : UInt64) : Prop :=
  credentials ≠ [] ∧ credentials.length ≤ 8 ∧ now < self.request.expiresAt

/-- Which queries some receipt answers. -/
def Availability (self : InventoryRequest) (credentials : List (VerifiedCredential Trust)) (now : UInt64) (available : List Bool) :
    Prop :=
  Fits self.request.dcqlQuery (some available) ∧
    ∀ i query, self.request.dcqlQuery.credentials[i]? = some query →
      (available.getD i false = true ↔
        credentialTypeMatches query (catalog self.vct) = .ok true ∧ ∃ c ∈ credentials, Answers self now query c)

theorem inventory_select (hv : Valid self.request.dcqlQuery (catalog self.vct)) (ha : Admitted self credentials now) :
    ∃ available, Availability self credentials now available ∧
      ((∃ prepared indices, self.select credentials now = .ok prepared ∧
          Selection self.request.dcqlQuery (catalog self.vct) (some available) indices ∧
          List.Forall₂ (fun i item => ∃ query, self.request.dcqlQuery.credentials[i]? = some query ∧
            Taken self credentials now query item) indices prepared.selected) ∨
        (self.select credentials now = .error unsatisfiedQuery ∧
          Unsatisfiable self.request.dcqlQuery (catalog self.vct) (some available))) := by
  obtain ⟨candidates, hcollect, hforall⟩ := candidates_eq hv
  have hlen : candidates.length = self.request.dcqlQuery.credentials.length := hforall.length_eq.symm
  have hfits : Fits self.request.dcqlQuery (some (candidates.map Option.isSome)) := by
    rintro _ ⟨rfl⟩
    rw [List.length_map, hlen]
  refine ⟨candidates.map Option.isSome, ⟨hfits, ?_⟩, ?_⟩
  · intro i query hq
    obtain ⟨found, hfound, hsome, -⟩ := forall₂_getElem hforall hq
    rw [← hsome]
    simp [hfound]
  · unfold InventoryRequest.select
    rw [denyIf, if_neg (by obtain ⟨hne, hl, ht⟩ := ha; simp [hne, hl, ht]), ok_bind, hcollect, ok_bind]
    dsimp only
    rcases hv.select hfits with ⟨indices, hselect, hsel⟩ | ⟨hselect, hu⟩
    · have havail : ∀ i ∈ indices, (candidates.getD i none).isSome = true := by
        intro i hi
        obtain ⟨query, hq, -, hav⟩ := hsel.usable i hi
        obtain ⟨found, hfound, -⟩ := forall₂_getElem hforall hq
        have := hav _ rfl
        simp [hfound] at this ⊢
        exact this
      obtain ⟨selected, hselected, hitems⟩ := takeAll_eq hsel.distinct havail
      refine .inl ⟨_, indices, by rw [hselect, ok_bind, hselected, ok_bind]; rfl, hsel, ?_⟩
      have hmem := (List.forall₂_and_left (p := (· ∈ indices)) _ _).mpr ⟨fun j hj => hj, hitems⟩
      refine hmem.imp fun i item hi => ?_
      obtain ⟨query, hq, -⟩ := hsel.usable i hi.1
      obtain ⟨found, hfound, -, htaken⟩ := forall₂_getElem hforall hq
      refine ⟨query, hq, htaken item ?_⟩
      simpa [hfound] using hi.2
    · exact .inr ⟨by rw [hselect, error_bind], hu⟩

theorem inventory_more {more : List (VerifiedCredential Trust)} (hv : Valid self.request.dcqlQuery (catalog self.vct))
    (ha : Admitted self credentials now) (hl : more.length ≤ 8) (hm : ∀ c ∈ credentials, c ∈ more)
    {prepared : PreparedInventory Trust} (h : self.select credentials now = .ok prepared) :
    ∃ later, self.select more now = .ok later := by
  have hmore : Admitted self more now := by
    refine ⟨fun he => ha.1 ?_, hl, ha.2.2⟩
    rw [he] at hm
    exact List.eq_nil_iff_forall_not_mem.mpr fun c hc => List.not_mem_nil (hm c hc)
  obtain ⟨available, havailable, hfirst⟩ := inventory_select hv ha
  obtain ⟨wider, hwider, hsecond⟩ := inventory_select hv hmore
  rcases hsecond with ⟨later, _, hlater, -⟩ | ⟨-, hu⟩
  · exact ⟨later, hlater⟩
  · rcases hfirst with ⟨_, _, -, hsel, -⟩ | ⟨hfail, -⟩
    · refine absurd (hu.fewer ?_) hsel.satisfied
      rintro i hi _ ⟨rfl⟩
      have hi := hi _ rfl
      have hlt : i < self.request.dcqlQuery.credentials.length := by
        rw [← havailable.1 _ rfl]
        by_contra hge
        rw [List.getD_eq_default _ _ (Nat.le_of_not_lt hge)] at hi
        cases hi
      obtain ⟨ht, c, hc, hans⟩ := (havailable.2 i _ (List.getElem?_eq_getElem hlt)).mp hi
      exact (hwider.2 i _ (List.getElem?_eq_getElem hlt)).mpr ⟨ht, c, hm c hc, hans⟩
    · rw [hfail] at h
      cases h

end

/-- Queries that pass the checks are selected soundly and wherever they can be
satisfied, and no credential more makes the selection fail. -/
theorem dcql_selection {Trust Value : Type} [Receipts Trust Value] :
    (∀ dcql vcts, ¬Valid dcql vcts → ∃ error, ∀ available, Fits dcql available →
      selectAvailableTypes dcql vcts available = .error error) ∧
    (∀ dcql vcts, Valid dcql vcts → ∀ available, Fits dcql available →
      (∀ selected, selectAvailableTypes dcql vcts available = .ok selected → Selection dcql vcts available selected) ∧
      (∀ error, selectAvailableTypes dcql vcts available = .error error ↔
        error = unsatisfiedQuery ∧ Unsatisfiable dcql vcts available) ∧
      ∀ more, Fits dcql more → Within available more → ∀ selected, selectAvailableTypes dcql vcts available = .ok selected →
        ∃ later, selectAvailableTypes dcql vcts more = .ok later) ∧
    ∀ (self : InventoryRequest) (credentials : List (VerifiedCredential Trust)) now,
      Valid self.request.dcqlQuery (catalog self.vct) → Admitted self credentials now →
      ∃ available, Availability self credentials now available ∧
        (∀ prepared, self.select credentials now = .ok prepared → ∃ indices,
          Selection self.request.dcqlQuery (catalog self.vct) (some available) indices ∧
          List.Forall₂ (fun i item => ∃ query, self.request.dcqlQuery.credentials[i]? = some query ∧
            Taken self credentials now query item) indices prepared.selected) ∧
        (∀ error, self.select credentials now = .error error ↔
          error = unsatisfiedQuery ∧ Unsatisfiable self.request.dcqlQuery (catalog self.vct) (some available)) ∧
        ∀ more, more.length ≤ 8 → (∀ c ∈ credentials, c ∈ more) → ∀ prepared, self.select credentials now = .ok prepared →
          ∃ later, self.select more now = .ok later := by
  refine ⟨fun dcql vcts hv => invalid_error hv, ?_, ?_⟩
  · intro dcql vcts hv available hf
    rcases hv.select hf with ⟨selected, hselected, hsel⟩ | ⟨hfail, hu⟩
    · refine ⟨fun other h => ?_, fun error => ⟨fun h => ?_, fun h => absurd h.2 hsel.satisfied⟩, fun more hm hw _ _ => ?_⟩
      · rw [hselected] at h
        cases h
        exact hsel
      · rw [hselected] at h
        cases h
      · rcases hv.select hm with ⟨later, hlater, -⟩ | ⟨-, hu⟩
        · exact ⟨later, hlater⟩
        · exact absurd (hu.fewer hw) hsel.satisfied
    · refine ⟨fun other h => ?_, fun error => ⟨fun h => ?_, fun h => ?_⟩, fun more hm hw selected h => ?_⟩
      · rw [hfail] at h
        cases h
      · rw [hfail] at h
        cases h
        exact ⟨rfl, hu⟩
      · rw [h.1, hfail]
      · rw [hfail] at h
        cases h
  · intro self credentials now hv ha
    obtain ⟨available, havailable, hcases⟩ := inventory_select hv ha
    refine ⟨available, havailable, ?_, ?_, fun more hl hm prepared h => inventory_more hv ha hl hm h⟩
    · intro prepared h
      rcases hcases with ⟨_, indices, hok, hsel, hitems⟩ | ⟨hfail, -⟩
      · rw [hok] at h
        cases h
        exact ⟨indices, hsel, hitems⟩
      · rw [hfail] at h
        cases h
    · intro error
      rcases hcases with ⟨_, indices, hok, hsel, -⟩ | ⟨hfail, hu⟩
      · rw [hok]
        exact ⟨(fun h => by cases h), fun h => absurd h.2 hsel.satisfied⟩
      · rw [hfail]
        exact ⟨(fun h => by cases h; exact ⟨rfl, hu⟩), fun h => by rw [h.1]⟩

/-! ## A request for a linked document -/

namespace Linked

/-- Every receipt is accepted; no text is decoded. -/
@[reducible] def receipts : Receipts Unit Unit where
  decode64 _ := none
  encode64 _ := ""
  fromSlice _ := none
  asArray _ := none
  asStr _ := none
  verifyReceipt _ _ _ _ _ _ := .ok ()
  verifyMdoc _ _ _ _ := .ok []
  verifyTrust _ _ _ _ _ _ := .ok ()
  authorityIdentifiers _ _ _ _ _ _ := .ok []

def query (id : String) : Query := ⟨none, id, "mso_mdoc", ⟨none, none⟩, []⟩

/-- Either both documents or the third. -/
def either : Dcql := ⟨[query "a", query "b", query "c"], some [⟨[["a", "b"], ["c"]], true⟩]⟩

def repeated : Dcql := ⟨[query "a", query "a"], none⟩

def repeatedText : String :=
  "\x7b\"credentials\":[\x7b\"id\":\"a\",\"format\":\"mso_mdoc\",\"meta\":\x7b\x7d\x7d,\x7b\"id\":\"a\",\"format\":\"mso_mdoc\",\"meta\":\x7b\x7d\x7d]\x7d"

def key : Identity.Wallet.PublicJwk := ⟨"EC", "P-256", "x", "y"⟩

def document : VerifiedCredential Unit := ⟨"", "mso_mdoc", key, key, "", "", (), 100, none⟩

def request : InventoryRequest := ⟨⟨⟨[query "a"], none⟩, 90, 90, [], []⟩, "vct"⟩

end Linked

open Linked in
/-- Without the second document the third is selected. -/
theorem dcql_selection_second :
    letI := receipts
    Selection either ["vct"] (some [true, false, true]) [2] := by
  let _ := receipts
  have hv : Valid either ["vct"] := ⟨⟨[true, true, true], by decide +kernel⟩, fun sets hs => by cases hs; decide +kernel⟩
  exact ((@dcql_selection Unit Unit receipts).2.1 either ["vct"] hv (some [true, false, true])
    (by rintro _ ⟨rfl⟩; rfl)).1 [2] (by decide +kernel)

open Linked in
/-- A query that is read may still be refused, and a ninth receipt is one too many. -/
theorem dcql_selection_refused :
    letI := receipts
    (¬∀ text dcql, (Json.parse text).bind Dcql.read = some dcql → ∀ vcts available, Fits dcql available → ∀ error,
      selectAvailableTypes dcql vcts available = .error error → Unsatisfiable dcql vcts available) ∧
    ¬∀ (self : InventoryRequest) (credentials more : List (VerifiedCredential Unit)) now, (∀ c ∈ credentials, c ∈ more) →
      (self.select credentials now).isOk = true → (self.select more now).isOk = true := by
  let _ := receipts
  constructor
  · intro h
    obtain ⟨i, hi, hu⟩ := h repeatedText repeated (by decide +kernel) [] none (fun a ha => by cases ha) unsupportedQuery
      (by decide +kernel)
    apply hu
    refine ⟨query "a", ?_, by decide +kernel, fun a ha => by cases ha⟩
    rcases i with _ | _ | i
    · rfl
    · rfl
    · exact absurd hi (by simp [repeated])
  · intro h
    have hmore := h request [document] (List.replicate 9 document) 0 (fun c hc => by rw [List.mem_singleton.mp hc]; simp)
      (by decide +kernel)
    revert hmore
    decide +kernel

end Mikaki.Presentation
