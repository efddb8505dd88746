import Mikaki.Vault.OwnerKeys

/-!
# Owner keys in every run

A committed mutation moves the head by one revision and adds or deletes one
wrap; its receipt answers every retry. The wraps of a key stay within their
limit, and none of them is removed by its own credential.
-/

namespace Mikaki.Vault.OwnerKeys

open Concurrent Rows Transactions

/-! ## What a batch does -/

/-- The row that an addition inserts. -/
def Mutation.added (m : Mutation) (envelope : String) : WrapRow :=
  { accountId := m.accountId, keyGeneration := m.keyGeneration, credentialId := m.target, envelope }

/-- One revision of the head, one wrap of its generation, one receipt. -/
structure Mutation.Commits (m : Mutation) (d d' : Db) : Prop where
  head : ∃ h ∈ d.heads, m.selects d h ∧ d'.heads = replace HeadRow.accountId h.next d.heads
  wrap : (∃ envelope, m.envelope = some envelope ∧ (∀ w ∈ d.wraps, w.key ≠ m.targetKey) ∧
      d'.wraps = d.wraps ++ [m.added envelope]) ∨
    (m.envelope = none ∧ ∃ w ∈ d.wraps, w.key = m.targetKey ∧ d'.wraps = d.wraps.filter (fun x => x.key ≠ w.key) ∧
      d.wraps.Perm (w :: d'.wraps))
  receipt : (∀ r ∈ d.receipts, r.key ≠ m.receipt.key) ∧ d'.receipts = d.receipts ++ [m.receipt]

/-- The keys of the tables, the limit, and a wrap for every head. -/
structure Wrapped (d : Db) : Prop where
  heads : Unique HeadRow.accountId d.heads
  wraps : Unique WrapRow.key d.wraps
  receipts : Unique ReceiptRow.key d.receipts
  few : ∀ account generation, (d.wrapsOf account generation).length ≤ 10
  owned : ∀ w ∈ d.wraps, ∃ h ∈ d.heads, h.accountId = w.accountId
  opened : ∀ h ∈ d.heads, ∃ w ∈ d.wraps, w.accountId = h.accountId ∧ w.keyGeneration = h.keyGeneration
  rooted : ∀ r ∈ d.receipts, ∃ h ∈ d.heads, h.accountId = r.accountId ∧ h.vaultId = r.vaultId ∧
    h.keyGeneration = r.keyGeneration

variable {d d' : Db} {m : Mutation}

theorem Mutation.commits (hw : Wrapped d) (h : m.run d = some d') : m.Commits d d' := by
  simp only [Mutation.run, Option.bind_eq_bind, Option.bind_eq_some_iff, require_eq_some, Option.pure_def, Option.some.injEq] at h
  obtain ⟨heads, hh, -, -, ⟨wraps, changes⟩, hc, -, h1, receipts, hr, rfl⟩ := h
  obtain ⟨row, hrow, hsel, -, hkey, rfl⟩ :=
    updateOne_replace hw.heads hh (fun a b ha hb => ha.1.trans hb.1.symm) fun _ _ => rfl
  obtain ⟨⟨-, hfresh⟩, rfl⟩ := insert_eq_some.mp hr
  refine ⟨⟨row, hrow, hsel, rfl⟩, ?_, hfresh, rfl⟩
  unfold Mutation.change at hc
  cases he : m.envelope with
  | some envelope =>
    simp only [he, Option.bind_eq_bind, Option.bind_eq_some_iff, Option.pure_def, Option.some.injEq, Prod.mk.injEq] at hc
    obtain ⟨ws, hi, rfl, rfl⟩ := hc
    obtain ⟨⟨-, hn⟩, rfl⟩ := insert_eq_some.mp hi
    exact .inl ⟨envelope, rfl, hn, rfl⟩
  | none =>
    simp only [he, Option.some.injEq, Prod.mk.injEq] at hc
    obtain ⟨rfl, rfl⟩ := hc
    have hpos : 0 < d.wraps.countP fun w => w.key = m.targetKey := Nat.lt_of_lt_of_eq Nat.one_pos h1.symm
    obtain ⟨w, hwm, hwk⟩ := List.countP_pos_iff.mp hpos
    have hwk : w.key = m.targetKey := by simpa using hwk
    refine .inr ⟨rfl, w, hwm, hwk, ?_, ?_⟩
    · rw [hwk]
    · have hp := hw.wraps.perm_filter hwm
      rwa [hwk] at hp

/-! ## What every batch keeps -/

/-- What no mutation changes of a head. -/
structure HeadRow.Same (h h' : HeadRow) : Prop where
  accountId : h'.accountId = h.accountId
  vaultId : h'.vaultId = h.vaultId
  keyGeneration : h'.keyGeneration = h.keyGeneration

theorem Mutation.Commits.heads (hw : Wrapped d) (h : m.Commits d d') :
    Evolves HeadRow.Same (fun _ => False) d.heads d'.heads := by
  obtain ⟨row, hrow, -, he⟩ := h.head
  rw [he]
  exact .replace (fun _ => ⟨rfl, rfl, rfl⟩) hw.heads hrow rfl ⟨rfl, rfl, rfl⟩

theorem Mutation.Commits.few (hw : Wrapped d) (h : m.Commits d d') (account : String) (generation : Int) :
    (d'.wrapsOf account generation).length ≤ 10 := by
  obtain ⟨row, -, ⟨-, -, -, -, -, -, -, -, -, -, -, -, hlimit, -⟩, -⟩ := h.head
  rcases h.wrap with ⟨envelope, he, -, hws⟩ | ⟨he, w, -, -, hws, -⟩
  · have hadd : m.action = .add := by simp [Mutation.action, he]
    have hlt : (d.wrapsOf m.accountId m.keyGeneration).length < 10 := by
      rcases hlimit with hr | hlt
      · rw [hadd] at hr
        cases hr
      · exact hlt
    unfold Db.wrapsOf
    rw [hws]
    refine length_filter_snoc (hw.few account generation) fun hp => ?_
    obtain ⟨rfl, rfl⟩ : m.accountId = account ∧ m.keyGeneration = generation := of_decide_eq_true hp
    exact hlt
  · unfold Db.wrapsOf
    rw [hws]
    exact (((List.filter_sublist).filter _).length_le).trans (hw.few account generation)

theorem Mutation.Commits.source (h : m.Commits d d') : m.credentialId ≠ m.target ∧ ∃ w ∈ d'.wraps, w.key = m.sourceKey := by
  obtain ⟨row, -, ⟨-, -, -, -, -, -, -, -, -, ⟨w, hwm, hwk⟩, -, hne, -⟩, -⟩ := h.head
  refine ⟨hne, w, ?_, hwk⟩
  rcases h.wrap with ⟨envelope, -, -, hws⟩ | ⟨-, x, -, hxk, hws, -⟩
  · rw [hws]
    exact List.mem_append_left _ hwm
  · rw [hws]
    refine List.mem_filter.mpr ⟨hwm, ?_⟩
    have hk : w.key ≠ x.key := by
      rw [hwk, hxk]
      intro he
      exact hne (Prod.ext_iff.mp (Prod.ext_iff.mp he).2).2
    simpa using hk

theorem Mutation.Commits.wrapped (hw : Wrapped d) (h : m.Commits d d') : Wrapped d' := by
  have hheads := h.heads hw
  obtain ⟨row, hrow, ⟨ha, -, -, hv, hg, -⟩, he⟩ := h.head
  obtain ⟨hfresh, hr⟩ := h.receipt
  obtain ⟨-, w, hwm, hwk⟩ := h.source
  have hrow' : row.next ∈ d'.heads := he ▸ replace_mem HeadRow.accountId row.next hrow rfl
  refine ⟨?_, ?_, hr ▸ hw.receipts.snoc hfresh, h.few hw, ?_, ?_, ?_⟩
  · rw [he]
    exact hw.heads.replace hw.heads hrow rfl rfl
  · rcases h.wrap with ⟨envelope, -, hn, hws⟩ | ⟨-, x, -, -, hws, -⟩
    · exact hws ▸ hw.wraps.snoc hn
    · exact hws ▸ hw.wraps.filter _
  · intro x hx
    have hold : x ∈ d.wraps ∨ x.accountId = m.accountId := by
      rcases h.wrap with ⟨envelope, -, -, hws⟩ | ⟨-, y, -, -, hws, -⟩
      · rw [hws] at hx
        rcases mem_snoc.mp hx with hx | rfl
        · exact .inl hx
        · exact .inr rfl
      · rw [hws] at hx
        exact .inl (List.mem_filter.mp hx).1
    rcases hold with hx | hx
    · obtain ⟨y, hy, hya⟩ := hw.owned x hx
      obtain ⟨z, hz, hs⟩ := hheads.forward y hy
      exact ⟨z, hz, hs.accountId.trans hya⟩
    · exact ⟨row.next, hrow', ha.trans hx.symm⟩
  · intro x hx
    obtain hx | ⟨y, hy, hs⟩ := hheads.backward x hx
    · exact hx.elim
    · rw [hs.accountId, hs.keyGeneration]
      by_cases hya : y.accountId = m.accountId
      · -- The wrap that authorised the mutation is still there.
        obtain rfl : y = row := hw.heads.eq hy hrow (hya.trans ha.symm)
        have hk := Prod.ext_iff.mp hwk
        exact ⟨w, hwm, hk.1.trans ha.symm, (Prod.ext_iff.mp hk.2).1.trans hg.symm⟩
      · obtain ⟨v, hv, hva, hvg⟩ := hw.opened y hy
        refine ⟨v, ?_, hva, hvg⟩
        rcases h.wrap with ⟨envelope, -, -, hws⟩ | ⟨-, z, -, hzk, hws, -⟩
        · rw [hws]
          exact List.mem_append_left _ hv
        · rw [hws]
          refine List.mem_filter.mpr ⟨hv, ?_⟩
          have hne : v.key ≠ z.key := fun he => hya (hva.symm.trans (Prod.ext_iff.mp (he.trans hzk)).1)
          simpa using hne
  · intro r hr'
    rw [hr] at hr'
    rcases mem_snoc.mp hr' with hr' | rfl
    · obtain ⟨y, hy, hya, hyv, hyg⟩ := hw.rooted r hr'
      obtain ⟨z, hz, hs⟩ := hheads.forward y hy
      exact ⟨z, hz, hs.accountId.trans hya, hs.vaultId.trans hyv, hs.keyGeneration.trans hyg⟩
    · exact ⟨row.next, hrow', ha, hv, hg⟩

theorem Creation.wrapped {p : Creation} (hw : Wrapped d) (h : p.run d = some d') : Wrapped d' ∧ d'.receipts = d.receipts := by
  unfold Creation.run at h
  by_cases hc : (∀ h ∈ d.heads, h.accountId ≠ p.accountId) ∧
      d.around.authorised p.accountId p.credentialId p.secretHash p.now
  · rw [if_pos hc] at h
    simp only [Option.bind_eq_bind, Option.bind_eq_some_iff, Option.pure_def, Option.some.injEq] at h
    obtain ⟨heads, hh, wraps, hi, rfl⟩ := h
    obtain ⟨⟨-, hnh⟩, rfl⟩ := insert_eq_some.mp hh
    obtain ⟨⟨-, hnw⟩, rfl⟩ := insert_eq_some.mp hi
    have hnone : ∀ generation, d.wrapsOf p.accountId generation = [] := by
      intro generation
      refine List.filter_eq_nil_iff.mpr fun w hwm hwa => ?_
      obtain ⟨x, hx, hxa⟩ := hw.owned w hwm
      simp only [decide_eq_true_eq] at hwa
      exact hc.1 x hx (hxa.trans hwa.1)
    refine ⟨⟨hw.heads.snoc hnh, hw.wraps.snoc hnw, hw.receipts, ?_, ?_, ?_, ?_⟩, rfl⟩
    · intro account generation
      refine length_filter_snoc (hw.few account generation) fun hp => ?_
      obtain ⟨rfl, -⟩ : p.accountId = account ∧ 1 = generation := of_decide_eq_true hp
      exact (congrArg List.length (hnone generation)).trans_lt (Nat.zero_lt_succ 9)
    · intro w hwm
      rcases mem_snoc.mp hwm with hwm | rfl
      · obtain ⟨x, hx, hxa⟩ := hw.owned w hwm
        exact ⟨x, List.mem_append_left _ hx, hxa⟩
      · exact ⟨_, List.mem_append_right _ List.mem_cons_self, rfl⟩
    · intro x hx
      rcases mem_snoc.mp hx with hx | rfl
      · obtain ⟨w, hwm, hwa, hwg⟩ := hw.opened x hx
        exact ⟨w, List.mem_append_left _ hwm, hwa, hwg⟩
      · exact ⟨_, List.mem_append_right _ List.mem_cons_self, rfl, rfl⟩
    · intro r hr
      obtain ⟨x, hx, h⟩ := hw.rooted r hr
      exact ⟨x, List.mem_append_left _ hx, h⟩
  · rw [if_neg hc] at h
    cases h
    exact ⟨hw, rfl⟩

theorem wrapped_drift (hw : Wrapped d) (h : system.drift d d') : Wrapped d' := by
  obtain ⟨hh, hws, hr⟩ := h
  refine ⟨hh ▸ hw.heads, hws ▸ hw.wraps, hr ▸ hw.receipts, ?_, ?_, ?_, ?_⟩
  · unfold Db.wrapsOf
    rw [hws]
    exact hw.few
  · rw [hh, hws]
    exact hw.owned
  · rw [hh, hws]
    exact hw.opened
  · rw [hh, hr]
    exact hw.rooted

/-! ## The log -/

theorem receipt_mem {d : Db} {actor : Owner} {operation : String} {now : Nat} {r : ReceiptRow}
    (h : receipt d actor operation now = some r) : r ∈ d.receipts ∧ r.accountId = actor.accountId ∧ r.operationId = operation := by
  obtain ⟨hl, -⟩ := Option.filter_eq_some_iff.mp h
  obtain ⟨hm, hk⟩ := lookup_mem hl
  exact ⟨hm, (Prod.ext_iff.mp hk).1, (Prod.ext_iff.mp hk).2⟩

/-- What an admitted request took over from the request. -/
structure Admitted.By (a : Admitted) (request : Request) : Prop where
  operation : request.operationId = some a.operation
  expected : request.expectedRevision = some (a.expected : Int)
  body : request.body = some a.body

variable [Bodies]

/-- The batch is that of the call. -/
def Made (call : Call) (m : Mutation) : Prop :=
  ∃ (request : Request) (add : Bool) (a : Admitted) (now : Nat),
    call = .wrapper request add ∧ a.By request ∧ m = a.mutation request add now

/-- The receipt is of the account, the operation and the hash of the call. -/
def Answers (call : Call) (r : ReceiptRow) : Prop :=
  ∃ (request : Request) (add : Bool) (a : Admitted), call = .wrapper request add ∧ a.By request ∧ r.accountId = a.actor.accountId ∧
    r.operationId = a.operation ∧ r.requestHash = a.hash add

variable {ι : Type} (calls : ι → Call)

/-- Every logged mutation was its caller's and is committed once, with its receipt. -/
structure History (d : Db) (l : List (Transactions.Entry ι Db Tx)) : Prop where
  wrapped : Wrapped d
  made : ∀ e ∈ l, ∀ m, e.tx = .mutate m → Made (calls e.caller) m
  ran : ∀ e ∈ l, ∀ m, e.tx = .mutate m → ∃ d', m.run e.before = some d' ∧ m.Commits e.before d'
  receipts : ∀ e ∈ l, ∀ m, e.tx = .mutate m → m.receipt ∈ d.receipts
  once : l.Pairwise fun e f => ∀ m n, e.tx = .mutate m → f.tx = .mutate n → m.receipt.key ≠ n.receipt.key

def wrappers : Discipline ι Db Tx := ⟨History calls, fun i tx _ _ => ∀ m, tx = .mutate m → Made (calls i) m, fun _ _ _ _ => False⟩

variable {calls}

theorem history_mutate {l : List (Transactions.Entry ι Db Tx)} {i : ι} (h : History calls d l) (hm : Made (calls i) m)
    (hr : m.run d = some d') : History calls d' (l ++ [⟨i, .mutate m, d⟩]) := by
  have hc := m.commits h.wrapped hr
  obtain ⟨hfresh, hrec⟩ := hc.receipt
  have hmem : ∀ {e : Transactions.Entry ι Db Tx}, e ∈ l ++ [⟨i, .mutate m, d⟩] → e ∈ l ∨ e = ⟨i, .mutate m, d⟩ := mem_snoc.mp
  refine ⟨hc.wrapped h.wrapped, ?_, ?_, ?_, ?_⟩
  · intro e he n hn
    rcases hmem he with he | rfl
    · exact h.made e he n hn
    · cases hn
      exact hm
  · intro e he n hn
    rcases hmem he with he | rfl
    · exact h.ran e he n hn
    · cases hn
      exact ⟨d', hr, hc⟩
  · intro e he n hn
    rw [hrec]
    rcases hmem he with he | rfl
    · exact List.mem_append_left _ (h.receipts e he n hn)
    · cases hn
      exact List.mem_append_right _ List.mem_cons_self
  · refine List.pairwise_append.mpr ⟨h.once, List.pairwise_singleton _ _, fun e he f hf n n' hn hn' => ?_⟩
    rw [List.mem_singleton.mp hf] at hn'
    cases hn'
    exact hfresh _ (h.receipts e he n hn)

theorem history_create {l : List (Transactions.Entry ι Db Tx)} {i : ι} {p : Creation} (h : History calls d l)
    (hr : p.run d = some d') : History calls d' (l ++ [⟨i, .create p, d⟩]) := by
  obtain ⟨hw, hrec⟩ := Creation.wrapped h.wrapped hr
  have hmem : ∀ {e : Transactions.Entry ι Db Tx} {m : Mutation}, e ∈ l ++ [⟨i, .create p, d⟩] → e.tx = .mutate m → e ∈ l := by
    intro e m he hm
    rcases mem_snoc.mp he with he | rfl
    · exact he
    · cases hm
  refine ⟨hw, fun e he m hm => h.made e (hmem he hm) m hm, fun e he m hm => h.ran e (hmem he hm) m hm, ?_, ?_⟩
  · intro e he m hm
    rw [hrec]
    exact h.receipts e (hmem he hm) m hm
  · refine List.pairwise_append.mpr ⟨h.once, List.pairwise_singleton _ _, fun e he f hf n n' hn hn' => ?_⟩
    rw [List.mem_singleton.mp hf] at hn'
    cases hn'

theorem wrappers_keeps : Keeps system (wrappers calls) := by
  refine ⟨⟨?_, ?_⟩, fun i tx => .const _⟩
  · intro i tx d d' l h hs hr _
    have hs : ∀ m, tx = .mutate m → Made (calls i) m := hs.resolve_right id
    cases tx with
    | mutate m => exact history_mutate h (hs m rfl) hr
    | create p => exact history_create h hr
  · intro d d' l h hd _
    have hrec : d'.receipts = d.receipts := hd.2.2
    exact ⟨wrapped_drift h.wrapped hd, h.made, h.ran, fun e he m hm => hrec ▸ h.receipts e he m hm, h.once⟩

/-- Receipts stay. -/
theorem kept_receipts (rs : List ReceiptRow) : Kept system (wrappers calls) fun d _ => ∀ r ∈ rs, r ∈ d.receipts := by
  constructor
  · intro i tx d d' l h _ hr hrs r hrm
    cases tx with
    | mutate m =>
      rw [(m.commits h.wrapped hr).receipt.2]
      exact List.mem_append_left _ (hrs r hrm)
    | create p =>
      rw [(Creation.wrapped h.wrapped hr).2]
      exact hrs r hrm
  · intro d d' l _ hd hrs r hrm
    rw [hd.2.2]
    exact hrs r hrm

/-! ## The handler -/

section
variable {i : ι}

theorem gives_wanted (add : Bool) (body : String) :
    Ensures (world system) (contract system (wrappers calls)) i (fun _ => True) (wanted add body) fun _ _ => True := by
  unfold wanted
  by_cases ha : add = true
  · rw [if_pos ha]
    exact (gives_demand _ _).andThen fun value _ => (gives_fails _ _).andThen fun _ _ => gives_pure trivial
  · rw [if_neg ha]
    exact (gives_demand _ _).andThen fun value _ => (gives_fails _ _).andThen fun _ _ => gives_pure trivial

theorem gives_admission (request : Request) (add : Bool) :
    Ensures (world system) (contract system (wrappers calls)) i (fun _ => True) (admission request add)
      fun a _ => a.By request := by
  unfold admission
  refine (gives_fails _ _).andThen fun _ _ => (gives_fails _ _).andThen fun _ _ => (gives_demand _ _).andThen fun x hx => ?_
  refine (gives_demand _ _).andThen fun operation ho => (gives_owner _ _ _).andThen fun actor _ => ?_
  refine (gives_demand _ _).andThen fun actor _ => (gives_fails _ _).andThen fun _ _ => ?_
  refine (gives_demand _ _).andThen fun body hb => (gives_wanted _ _).andThen fun want _ => spec_any.andThen fun d _ => ?_
  refine (gives_demand _ _).andThen fun current _ => (gives_fails _ _).andThen fun _ _ => ?_
  refine (gives_fails _ _).andThen fun _ _ => gives_pure ⟨ho, ?_, hb⟩
  obtain ⟨he, hpos⟩ := Option.filter_eq_some_iff.mp hx
  have hpos : 0 < x := by simpa using hpos
  rw [he, Int.toNat_of_nonneg (Int.le_of_lt hpos)]

theorem gives_receiptResponse {call : Call} {request : Request} {add : Bool} {a : Admitted} {d : Db} {now : Nat}
    {r : ReceiptRow} (hcall : call = .wrapper request add) (ha : a.By request)
    (hr : receipt d a.actor a.operation now = some r) :
    Ensures (world system) (contract system (wrappers calls)) i (fun s => ∀ r ∈ d.receipts, r ∈ s.db.receipts)
      (receiptResponse r (a.hash add)) fun r s => Answers call r ∧ r ∈ s.db.receipts := by
  unfold receiptResponse
  obtain ⟨hm, hacc, hop⟩ := receipt_mem hr
  refine Ensures.fails.bind fun _ => .pure fun s _ hs => ?_
  exact ⟨⟨request, add, a, hcall, ha, hacc, hop, not_not.mp hs.2⟩, hs.1 r hm⟩

theorem gives_read : Ensures (world system) (contract system (wrappers calls)) i (fun _ => True) (read : Route Db)
    fun d s => ∀ r ∈ d.receipts, r ∈ s.db.receipts :=
  (spec_read (.const True) (fun d => kept_receipts d.receipts) fun _ _ _ _ h => h).post fun _ _ _ h => h.2

theorem gives_refusal (request : Request) (m : Mutation) {A : ReceiptRow → Shared ι Db Tx → Prop} :
    Ensures (world system) (contract system (wrappers calls)) i (fun _ => True) (refusal request m) A := by
  unfold refusal
  refine (gives_owner _ _ _).andThen fun again _ => (gives_fails _ _).andThen fun _ _ => spec_any.andThen fun d _ => ?_
  refine (gives_fails _ _).andThen fun _ _ => spec_any.andThen fun d _ => (gives_fails _ _).andThen fun _ _ => ?_
  exact spec_any.andThen fun d _ => .throw

theorem gives_mutateWrapper {request : Request} {add : Bool} (hcall : calls i = .wrapper request add) :
    Ensures (world system) (contract system (wrappers calls)) i (fun _ => True) (mutateWrapper request add)
      fun r s => Answers (calls i) r ∧ r ∈ s.db.receipts := by
  unfold mutateWrapper
  refine (gives_admission _ _).andThen fun a ha => (gives_demand _ _).andThen fun now _ => gives_read.bind fun d => ?_
  cases hr : receipt d a.actor a.operation now with
  | some previous => exact gives_receiptResponse hcall ha hr
  | none =>
    refine Ensures.weaken ?_ fun _ _ _ => trivial
    refine (gives_fails _ _).andThen fun _ _ => (gives_fails _ _).andThen fun _ _ => (gives_demand _ _).andThen fun now _ => ?_
    have hsent : ∀ n, Tx.mutate (a.mutation request add now) = .mutate n → Made (calls i) n := by
      intro n hn
      cases hn
      exact ⟨request, add, a, now, hcall, ha, rfl⟩
    refine (Ensures.attempt (spec_commit wrappers_keeps fun _ _ _ => hsent)).bind fun result => ?_
    refine Ensures.weaken ?_ fun _ _ _ => trivial
    refine (gives_demand _ _).andThen fun now _ => gives_read.bind fun d => ?_
    cases hr : receipt d a.actor a.operation now with
    | some previous => exact gives_receiptResponse hcall ha hr
    | none =>
      refine Ensures.weaken ?_ fun _ _ _ => trivial
      cases result with
      | error e => exact gives_refusal request _
      | ok u => exact .throw

/-- What a call knows when it has returned. -/
def Returned (call : Call) (result : Except Failure (Option ReceiptRow)) (s : Shared ι Db Tx) : Prop :=
  ∀ r, result = .ok (some r) → Answers call r ∧ r ∈ s.db.receipts

theorem program_valid (i : ι) :
    Valid (world system) (contract system (wrappers calls)) i (Returned (calls i)) (fun _ => True) ((calls i).program).run := by
  have hany : Ensures (world system) (contract system (wrappers calls)) i (fun _ => True) (calls i).program
      fun o s => ∀ r, o = some r → Answers (calls i) r ∧ r ∈ s.db.receipts := by
    cases hc : calls i with
    | wrapper request add =>
      have hm := gives_mutateWrapper hc
      rw [hc] at hm
      have hboth : Ensures (world system) (contract system (wrappers calls)) i (fun _ => True)
          (mutateWrapper request add >>= fun r => pure (some r))
          fun o s => ∀ r, o = some r → Answers (.wrapper request add) r ∧ r ∈ s.db.receipts := by
        refine hm.bind fun r => .pure fun s _ h r' hr' => ?_
        cases hr'
        exact h
      cases add with
      | true => exact hboth
      | false => exact hboth
    | create p =>
      unfold Call.program
      refine Ensures.bind (spec_commit wrappers_keeps fun _ _ _ m hm => by cases hm) fun _ => ?_
      refine Ensures.pure fun s _ _ => ?_
      intro r hr
      cases hr
  exact Valid.post hany fun result s _ h r hr => h _ hr r rfl

end

/-! ## Retries -/

/-- Bodies that nobody reads. -/
@[reducible] def Sample.bodies : Bodies :=
  { decode64 := fun _ => none, encode64 := fun _ => "", create := fun _ => none, removeWrap := fun _ => none
    envelope := fun _ => "" }

def Sample.db : Db :=
  { around :=
      { contexts := [⟨"sso", "secret"⟩], sessions := [⟨"sso", "account", "passkey", 3, 900, false⟩], boundSessions := []
        accounts := [⟨"account", 3, true⟩], credentials := [⟨"passkey", "account", true⟩], unixepoch := 100 }
    guards := [], heads := [], wraps := [], receipts := [] }

def Sample.request : Request :=
  { bucket := false, origin := none, url := "https://op.example", ifNoneMatch := none, ifMatch := none, operation := none
    cookie := none, contentType := none, body := none, clock := fun _ => none }

end Mikaki.Vault.OwnerKeys
