import Mathlib

/-!
# Rows of a table

An SQL table is a list of rows with one or more unique keys. `lookup` reads
the row under a key, `put` is `INSERT OR REPLACE`, `update` is `UPDATE .. WHERE`
and a `DELETE` is a filter. What is proved here is which rows are there after
a statement and that the keys stay unique.
-/

namespace Rows

variable {α κ : Type*}

/-- No two rows have one key. -/
def Unique (key : α → κ) (t : List α) : Prop := t.Pairwise fun a b => key a ≠ key b

def update (p : α → Prop) [DecidablePred p] (f : α → α) (t : List α) : List α := t.map fun a => if p a then f a else a

/-! ## Unique keys -/

section
variable {key : α → κ} {t : List α} {a b : α}

theorem Unique.nil : Unique key ([] : List α) := List.Pairwise.nil

theorem Unique.filter (h : Unique key t) (p : α → Bool) : Unique key (t.filter p) := h.sublist List.filter_sublist

theorem Unique.snoc (h : Unique key t) (hn : ∀ b ∈ t, key b ≠ key a) : Unique key (t ++ [a]) := by
  refine List.pairwise_append.mpr ⟨h, List.pairwise_singleton _ _, ?_⟩
  intro b hb c hc
  rw [List.mem_singleton.mp hc]
  exact hn b hb

theorem Unique.eq (h : Unique key t) (ha : a ∈ t) (hb : b ∈ t) (e : key a = key b) : a = b := by
  induction t with
  | nil => cases ha
  | cons c t ih =>
    obtain ⟨hc, ht⟩ := List.pairwise_cons.mp h
    rcases List.mem_cons.mp ha with rfl | hat
    · rcases List.mem_cons.mp hb with rfl | hbt
      · rfl
      · exact absurd e (hc b hbt)
    · rcases List.mem_cons.mp hb with rfl | hbt
      · exact absurd e.symm (hc a hat)
      · exact ih ht hat hbt

/-- Keys that no statement touches stay unique. -/
theorem Unique.map (h : Unique key t) {f : α → α} (hf : ∀ a ∈ t, key (f a) = key a) : Unique key (t.map f) := by
  refine List.pairwise_map.mpr (h.imp_of_mem ?_)
  intro a b ha hb hab
  rw [hf a ha, hf b hb]
  exact hab

theorem Unique.update (h : Unique key t) {p : α → Prop} [DecidablePred p] {f : α → α}
    (hf : ∀ a ∈ t, p a → key (f a) = key a) : Unique key (update p f t) := by
  refine h.map fun a ha => ?_
  split
  · rename_i hp; exact hf a ha hp
  · rfl

theorem mem_update {p : α → Prop} [DecidablePred p] {f : α → α} :
    b ∈ update p f t ↔ ∃ a ∈ t, (p a ∧ b = f a) ∨ (¬p a ∧ b = a) := by
  unfold update
  rw [List.mem_map]
  constructor
  · rintro ⟨a, ha, rfl⟩
    refine ⟨a, ha, ?_⟩
    split <;> simp [*]
  · rintro ⟨a, ha, ⟨hp, rfl⟩ | ⟨hp, rfl⟩⟩
    · exact ⟨a, ha, if_pos hp⟩
    · exact ⟨b, ha, if_neg hp⟩

end

/-! ## Reading and writing by key -/

section
variable [DecidableEq κ] (key : α → κ)

def lookup (k : κ) (t : List α) : Option α := t.find? fun a => key a = k

def put (a : α) (t : List α) : List α := t.filter (fun b => key b ≠ key a) ++ [a]

variable {key} {k : κ} {t : List α} {a b : α}

theorem lookup_mem (h : lookup key k t = some a) : a ∈ t ∧ key a = k :=
  ⟨List.mem_of_find?_eq_some h, by simpa using List.find?_some h⟩

theorem lookup_eq_none : lookup key k t = none ↔ ∀ a ∈ t, key a ≠ k := by
  simp [lookup]

theorem Unique.lookup (h : Unique key t) : lookup key k t = some a ↔ a ∈ t ∧ key a = k := by
  constructor
  · exact lookup_mem
  · rintro ⟨ha, rfl⟩
    cases hb : Rows.lookup key (key a) t with
    | none => exact absurd rfl (lookup_eq_none.mp hb a ha)
    | some b => rw [h.eq (lookup_mem hb).1 ha (lookup_mem hb).2]

theorem lookup_append (u : List α) : lookup key k (t ++ u) = (lookup key k t).or (lookup key k u) := List.find?_append

theorem lookup_put_self : lookup key (key a) (put key a t) = some a := by
  unfold put
  rw [lookup_append, lookup_eq_none.mpr, Option.none_or]
  · simp [lookup]
  · intro b hb
    simpa using (List.mem_filter.mp hb).2

theorem lookup_filter {p : α → Bool} (h : ∀ a ∈ t, key a = k → p a = true) :
    lookup key k (t.filter p) = lookup key k t := by
  unfold lookup
  rw [List.find?_filter]
  induction t with
  | nil => rfl
  | cons b t ih =>
    have ht := ih fun a ha => h a (List.mem_cons_of_mem b ha)
    rw [List.find?_cons, List.find?_cons, ht]
    by_cases hb : key b = k
    · simp [hb, h b List.mem_cons_self hb]
    · simp [hb]

/-- A statement that touches no key is seen by reading. -/
theorem lookup_map {f : α → α} (hf : ∀ a, key (f a) = key a) : lookup key k (t.map f) = (lookup key k t).map f := by
  unfold lookup
  rw [List.find?_map]
  refine congrArg (Option.map f) (congrArg (fun p => t.find? p) (funext fun a => ?_))
  exact decide_eq_decide.mpr (by rw [hf a])

theorem lookup_put_other (hk : k ≠ key a) : lookup key k (put key a t) = lookup key k t := by
  unfold put
  have hs : lookup key k [a] = none := lookup_eq_none.mpr fun b hb => by rw [List.mem_singleton.mp hb]; exact hk.symm
  rw [lookup_append, hs, Option.or_none]
  exact lookup_filter fun b _ hb => by simpa [hb] using hk

theorem mem_put (h : b ∈ put key a t) : b = a ∨ (b ∈ t ∧ key b ≠ key a) := by
  rcases List.mem_append.mp h with h | h
  · exact .inr ⟨(List.mem_filter.mp h).1, by simpa using (List.mem_filter.mp h).2⟩
  · exact .inl (List.mem_singleton.mp h)

theorem Unique.put (h : Unique key t) : Unique key (put key a t) :=
  (h.filter _).snoc fun b hb => by simpa using (List.mem_filter.mp hb).2

theorem length_put_le : (Rows.put key a t).length ≤ t.length + 1 := by
  rw [Rows.put, List.length_append, List.length_singleton]
  exact Nat.succ_le_succ (List.length_filter_le _ t)

/-- A row written over another leaves as many rows. -/
theorem Unique.length_put (h : Unique key t) (hb : b ∈ t) (e : key b = key a) : (Rows.put key a t).length = t.length := by
  unfold Rows.put
  induction t with
  | nil => cases hb
  | cons c t ih =>
    obtain ⟨hc, ht⟩ := List.pairwise_cons.mp h
    by_cases hk : key c = key a
    · have hf : t.filter (fun b => key b ≠ key a) = t := List.filter_eq_self.mpr fun x hx => by
        simpa [← hk] using (hc x hx).symm
      simp only [List.filter_cons, hk, ne_eq, not_true_eq_false, decide_false, Bool.false_eq_true, if_false]
      simpa using congrArg List.length hf
    · have hbt : b ∈ t := (List.mem_cons.mp hb).resolve_left fun hbc => hk (hbc ▸ e)
      simpa [List.filter_cons, hk] using ih ht hbt

end

theorem update_none {p : α → Prop} [DecidablePred p] {f : α → α} {t : List α} (h : ∀ a ∈ t, ¬p a) : update p f t = t := by
  unfold update
  refine (List.map_congr_left fun a ha => ?_).trans (List.map_id t)
  exact if_neg (h a ha)

theorem update_congr {p q : α → Prop} [DecidablePred p] [DecidablePred q] {f : α → α} {t : List α}
    (h : ∀ a ∈ t, p a ↔ q a) : update p f t = update q f t := by
  unfold update
  refine List.map_congr_left fun a ha => ?_
  by_cases hp : p a
  · rw [if_pos hp, if_pos ((h a ha).mp hp)]
  · rw [if_neg hp, if_neg fun hq => hp ((h a ha).mpr hq)]

/-- What an update leaves of every row can be looked for before it. -/
theorem exists_update {p : α → Prop} [DecidablePred p] {f : α → α} {t : List α} {Q : α → Prop}
    (h : ∀ a ∈ t, Q (f a) ↔ Q a) : (∃ a ∈ update p f t, Q a) ↔ ∃ a ∈ t, Q a := by
  constructor
  · intro ⟨b, hb, hq⟩
    obtain ⟨a, ha, ⟨-, rfl⟩ | ⟨-, rfl⟩⟩ := mem_update.mp hb
    · exact ⟨a, ha, (h a ha).mp hq⟩
    · exact ⟨b, ha, hq⟩
  · intro ⟨a, ha, hq⟩
    by_cases hp : p a
    · exact ⟨f a, mem_update.mpr ⟨a, ha, .inl ⟨hp, rfl⟩⟩, (h a ha).mpr hq⟩
    · exact ⟨a, mem_update.mpr ⟨a, ha, .inr ⟨hp, rfl⟩⟩, hq⟩

/-! ## Counting -/

theorem length_filter_map {p : α → Bool} {f : α → α} {t : List α} (h : ∀ a ∈ t, p (f a) = p a) :
    ((t.map f).filter p).length = (t.filter p).length := by
  rw [List.filter_map, List.length_map]
  exact congrArg List.length (List.filter_congr h)

theorem length_filter_update {q : α → Prop} [DecidablePred q] {p : α → Bool} {f : α → α} {t : List α}
    (h : ∀ a ∈ t, p (f a) = p a) : ((update q f t).filter p).length = (t.filter p).length := by
  refine length_filter_map fun a ha => ?_
  by_cases hq : q a
  · rw [if_pos hq, h a ha]
  · rw [if_neg hq]

theorem length_filter_map_le {p q : α → Bool} {f : α → α} {t : List α} (h : ∀ a ∈ t, p (f a) = true → q a = true) :
    ((t.map f).filter p).length ≤ (t.filter q).length := by
  induction t with
  | nil => exact Nat.le_refl _
  | cons a t ih =>
    have ht := ih fun b hb => h b (List.mem_cons_of_mem a hb)
    rw [List.map_cons]
    by_cases hp : p (f a) = true
    · rw [List.filter_cons_of_pos hp, List.filter_cons_of_pos (h a List.mem_cons_self hp)]
      exact Nat.succ_le_succ ht
    · rw [List.filter_cons_of_neg hp]
      by_cases hq : q a = true
      · rw [List.filter_cons_of_pos hq]
        exact Nat.le_succ_of_le ht
      · rw [List.filter_cons_of_neg hq]
        exact ht

theorem length_filter_update_le {r : α → Prop} [DecidablePred r] {p q : α → Bool} {f : α → α} {t : List α}
    (hr : ∀ a ∈ t, r a → p (f a) = true → q a = true) (hn : ∀ a ∈ t, ¬r a → p a = true → q a = true) :
    ((update r f t).filter p).length ≤ (t.filter q).length := by
  refine length_filter_map_le fun a ha hp => ?_
  by_cases h : r a
  · rw [if_pos h] at hp
    exact hr a ha h hp
  · rw [if_neg h] at hp
    exact hn a ha h hp

/-- An update under one key adds one row to a selection, at most. -/
theorem Unique.length_filter_update_le {key : α → κ} {k : κ} {r : α → Prop} [DecidablePred r] {p q : α → Bool} {f : α → α}
    {t : List α} (hu : Unique key t) (hk : ∀ a ∈ t, r a → key a = k) (hn : ∀ a ∈ t, ¬r a → p a = true → q a = true) :
    ((Rows.update r f t).filter p).length ≤ (t.filter q).length + 1 := by
  induction t with
  | nil => exact Nat.zero_le _
  | cons a t ih =>
    obtain ⟨ha, hut⟩ := List.pairwise_cons.mp hu
    have ht := fun b hb => hn b (List.mem_cons_of_mem a hb)
    have hq : (t.filter q).length ≤ ((a :: t).filter q).length := (List.Sublist.filter q (List.sublist_cons_self a t)).length_le
    have hcons : Rows.update r f (a :: t) = (if r a then f a else a) :: Rows.update r f t := rfl
    rw [hcons]
    by_cases h : r a
    · -- The keys of the other rows differ.
      have hrest : Rows.update r f t = t := update_none fun b hb hrb =>
        ha b hb ((hk a List.mem_cons_self h).trans (hk b (List.mem_cons_of_mem a hb) hrb).symm)
      have hle : (t.filter p).length ≤ (t.filter q).length := by
        have hmap : ∀ b ∈ t, p b = true → q b = true := fun b hb =>
          ht b hb fun hrb => ha b hb ((hk a List.mem_cons_self h).trans (hk b (List.mem_cons_of_mem a hb) hrb).symm)
        simpa using length_filter_map_le (f := id) hmap
      rw [if_pos h, hrest]
      have hfirst : ((f a :: t).filter p).length ≤ (t.filter p).length + 1 := by
        by_cases hp : p (f a) = true
        · rw [List.filter_cons_of_pos hp]
          exact Nat.le_refl _
        · rw [List.filter_cons_of_neg hp]
          exact Nat.le_succ _
      omega
    · have hrest := ih hut (fun b hb => hk b (List.mem_cons_of_mem a hb)) ht
      rw [if_neg h]
      by_cases hp : p a = true
      · rw [List.filter_cons_of_pos hp, List.filter_cons_of_pos (hn a List.mem_cons_self h hp)]
        exact Nat.succ_le_succ hrest
      · rw [List.filter_cons_of_neg hp]
        omega

/-- A row is added only below the limit. -/
theorem length_filter_snoc {p : α → Bool} {t : List α} {a : α} {n : Nat} (h : (t.filter p).length ≤ n)
    (ha : p a = true → (t.filter p).length < n) : ((t ++ [a]).filter p).length ≤ n := by
  rw [List.filter_append, List.length_append]
  by_cases hp : p a = true
  · rw [List.filter_cons_of_pos hp, List.filter_nil, List.length_singleton]
    exact ha hp
  · rw [List.filter_cons_of_neg hp, List.filter_nil, List.length_nil]
    exact h

/-- The rows under other keys are all rows but one. -/
theorem Unique.perm_filter [DecidableEq κ] {key : α → κ} {t : List α} {a : α} (h : Unique key t) (ha : a ∈ t) :
    t.Perm (a :: t.filter fun b => key b ≠ key a) := by
  induction t with
  | nil => cases ha
  | cons c t ih =>
    obtain ⟨hc, ht⟩ := List.pairwise_cons.mp h
    by_cases hk : key c = key a
    · obtain rfl : c = a := h.eq List.mem_cons_self ha hk
      have hf : t.filter (fun b => key b ≠ key c) = t := List.filter_eq_self.mpr fun x hx => by simpa using (hc x hx).symm
      rw [List.filter_cons_of_neg (by simp), hf]
    · have hat : a ∈ t := (List.mem_cons.mp ha).resolve_left fun e => hk (congrArg key e).symm
      rw [List.filter_cons_of_pos (by simpa using hk)]
      exact ((ih ht hat).cons c).trans (List.Perm.swap a c _)

/-! ## Counting -/

section
variable {p q : α → Bool} {t : List α} {a : α}

theorem countP_filter_lt (h : ∃ a ∈ t, q a = true ∧ p a = true) : (t.filter fun a => !q a).countP p + 1 ≤ t.countP p := by
  obtain ⟨a, ha, hq, hp⟩ := h
  have hpos : 0 < (t.filter q).countP p := List.countP_pos_iff.mpr ⟨a, List.mem_filter.mpr ⟨ha, hq⟩, hp⟩
  rw [List.countP_eq_countP_filter_add t p q]
  omega

theorem countP_filter_le (p q : α → Bool) (t : List α) : (t.filter q).countP p ≤ t.countP p := List.filter_sublist.countP_le

theorem countP_snoc (p : α → Bool) (t : List α) (a : α) : (t ++ [a]).countP p = t.countP p + (p a).toNat := by
  rw [List.countP_append, List.countP_singleton]
  cases p a <;> rfl

theorem eq_of_countP_le_one (h : t.countP p ≤ 1) {b : α} (ha : a ∈ t) (hb : b ∈ t) (hpa : p a = true) (hpb : p b = true) :
    a = b := by
  rw [List.countP_eq_length_filter] at h
  have hma : a ∈ t.filter p := List.mem_filter.mpr ⟨ha, hpa⟩
  have hmb : b ∈ t.filter p := List.mem_filter.mpr ⟨hb, hpb⟩
  obtain ⟨x, hx⟩ := List.length_eq_one_iff.mp (Nat.le_antisymm h (List.length_pos_of_mem hma))
  rw [hx] at hma hmb
  exact (List.mem_singleton.mp hma).trans (List.mem_singleton.mp hmb).symm

theorem forall_mem_snoc {P : α → Prop} (h : ∀ b ∈ t, P b) (ha : P a) : ∀ b ∈ t ++ [a], P b := by
  intro b hb
  rcases List.mem_append.mp hb with hb | hb
  · exact h b hb
  · rw [List.mem_singleton.mp hb]
    exact ha

end

/-! ## Rows that only move forward -/

/-- No row is lost, each has moved as `R` says, and what is new is `fresh`. -/
structure Evolves (R : α → α → Prop) (fresh : α → Prop) (t u : List α) : Prop where
  forward : ∀ a ∈ t, ∃ b ∈ u, R a b
  backward : ∀ b ∈ u, fresh b ∨ ∃ a ∈ t, R a b

section
variable {R : α → α → Prop} {fresh : α → Prop} {t : List α}

theorem Evolves.refl (hR : ∀ a, R a a) : Evolves R fresh t t := ⟨fun a h => ⟨a, h, hR a⟩, fun b h => .inr ⟨b, h, hR b⟩⟩

theorem Evolves.snoc (hR : ∀ a, R a a) {b : α} (hb : fresh b) : Evolves R fresh t (t ++ [b]) := by
  refine ⟨fun a h => ⟨a, List.mem_append_left _ h, hR a⟩, fun c hc => ?_⟩
  rcases List.mem_append.mp hc with h | h
  · exact .inr ⟨c, h, hR c⟩
  · rw [List.mem_singleton.mp h]
    exact .inl hb

theorem Evolves.map {f : α → α} (hf : ∀ a ∈ t, R a (f a)) : Evolves R fresh t (t.map f) := by
  refine ⟨fun a h => ⟨f a, List.mem_map_of_mem h, hf a h⟩, fun b hb => ?_⟩
  obtain ⟨a, ha, rfl⟩ := List.mem_map.mp hb
  exact .inr ⟨a, ha, hf a ha⟩

theorem Evolves.update (hR : ∀ a, R a a) {p : α → Prop} [DecidablePred p] {f : α → α} (hf : ∀ a ∈ t, p a → R a (f a)) :
    Evolves R fresh t (Rows.update p f t) := by
  refine .map fun a ha => ?_
  by_cases hp : p a
  · rw [if_pos hp]
    exact hf a ha hp
  · rw [if_neg hp]
    exact hR a

end

/-! ## Statements that may fail -/

def require (c : Prop) [Decidable c] : Option Unit := if c then some () else none

theorem require_eq_some {c : Prop} [Decidable c] {u : Unit} : require c = some u ↔ c := by simp [require]

section
variable [DecidableEq κ] {key : α → κ} {check : α → Prop} [DecidablePred check] {t u : List α} {a b : α}

/-- `INSERT`, which fails on a taken key or a failed check. -/
def insert (key : α → κ) (check : α → Prop) [DecidablePred check] (a : α) (t : List α) : Option (List α) :=
  if check a ∧ ∀ b ∈ t, key b ≠ key a then some (t ++ [a]) else none

theorem insert_eq_some : insert key check a t = some u ↔ (check a ∧ ∀ b ∈ t, key b ≠ key a) ∧ t ++ [a] = u := by
  unfold insert
  by_cases h : check a ∧ ∀ b ∈ t, key b ≠ key a
  · rw [if_pos h, Option.some.injEq]
    exact ⟨fun e => ⟨h, e⟩, fun e => e.2⟩
  · rw [if_neg h]
    exact ⟨(fun e => by cases e), fun e => absurd e.1 h⟩

/-- `INSERT .. SELECT` adds the rows, in order, under keys that are free. -/
theorem foldlM_insert {us : List α} (h : us.foldlM (fun t a => insert key check a t) t = some u) :
    u = t ++ us ∧ (Unique key t → Unique key u) := by
  induction us generalizing t with
  | nil =>
    obtain rfl : t = u := Option.some.inj h
    exact ⟨(List.append_nil t).symm, id⟩
  | cons a us ih =>
    rw [List.foldlM_cons] at h
    obtain ⟨v, hv, h⟩ := Option.bind_eq_some_iff.mp h
    obtain ⟨⟨-, hnew⟩, rfl⟩ := insert_eq_some.mp hv
    obtain ⟨rfl, hu⟩ := ih h
    exact ⟨by rw [List.append_assoc]; rfl, fun ht => hu (ht.snoc hnew)⟩

theorem mem_snoc : b ∈ t ++ [a] ↔ b ∈ t ∨ b = a := by simp

end

section
variable {p : α → Prop} [DecidablePred p] {f : α → α} {ok : α → α → Prop} [DecidableRel ok] {t u : List α} {a b : α}

/-- `UPDATE` of exactly one row; what a trigger does not allow fails. -/
def updateOne (p : α → Prop) [DecidablePred p] (f : α → α) (ok : α → α → Prop) [DecidableRel ok] (t : List α) :
    Option (List α) :=
  if t.countP (fun a => p a) = 1 ∧ ∀ a ∈ t, p a → ok a (f a) then some (update p f t) else none

theorem updateOne_eq_some (h : updateOne p f ok t = some u) : u = update p f t ∧ ∃ a ∈ t, p a ∧ ok a (f a) := by
  unfold updateOne at h
  by_cases hc : t.countP (fun a => p a) = 1 ∧ ∀ a ∈ t, p a → ok a (f a)
  · rw [if_pos hc] at h
    cases h
    obtain ⟨a, ha, hp⟩ := List.countP_pos_iff.mp (by rw [hc.1]; exact Nat.one_pos)
    have hpa : p a := by simpa using hp
    exact ⟨rfl, a, ha, hpa, hc.2 a ha hpa⟩
  · rw [if_neg hc] at h
    cases h

variable [DecidableEq κ] {key : α → κ} {κ' : Type*} {key' : α → κ'}

/-- The table with the row under its key replaced. -/
def replace (key : α → κ) (b : α) (t : List α) : List α := t.map fun a => if key a = key b then b else a

theorem mem_replace (key : α → κ) (b : α) (ha : a ∈ t) (hk : key b = key a) {c : α} :
    c ∈ replace key b t ↔ c = b ∨ (c ∈ t ∧ key c ≠ key b) := by
  unfold replace
  rw [List.mem_map]
  constructor
  · rintro ⟨x, hx, rfl⟩
    by_cases h : key x = key b
    · rw [if_pos h]
      exact .inl rfl
    · rw [if_neg h]
      exact .inr ⟨hx, h⟩
  · rintro (rfl | ⟨hc, hne⟩)
    · exact ⟨a, ha, if_pos hk.symm⟩
    · exact ⟨c, hc, if_neg hne⟩

theorem replace_mem (key : α → κ) (b : α) (ha : a ∈ t) (hk : key b = key a) : b ∈ replace key b t := (mem_replace key b ha hk).mpr (.inl rfl)

theorem Unique.replace (h : Unique key' t) (hu : Unique key t) (ha : a ∈ t) (hk : key b = key a) (hk' : key' b = key' a) :
    Unique key' (replace key b t) := by
  refine h.map fun x hx => ?_
  by_cases he : key x = key b
  · rw [if_pos he, hu.eq hx ha (he.trans hk), hk']
  · rw [if_neg he]

theorem Evolves.replace {R : α → α → Prop} {fresh : α → Prop} (hR : ∀ a, R a a) (hu : Unique key t) (ha : a ∈ t)
    (hk : key b = key a) (hab : R a b) : Evolves R fresh t (Rows.replace key b t) := by
  refine .map fun x hx => ?_
  by_cases he : key x = key b
  · rw [if_pos he, hu.eq hx ha (he.trans hk)]
    exact hab
  · rw [if_neg he]
    exact hR x

/-- The first row under the key of `b` is replaced by it. -/
def setFirst (key : α → κ) (b : α) : List α → List α
  | [] => []
  | a :: t => if key a = key b then b :: t else a :: setFirst key b t

theorem Unique.setFirst (h : Unique key t) : Rows.setFirst key b t = Rows.replace key b t := by
  induction t with
  | nil => rfl
  | cons a t ih =>
    obtain ⟨ha, ht⟩ := List.pairwise_cons.mp h
    unfold Rows.setFirst
    rw [Rows.replace, List.map_cons]
    by_cases he : key a = key b
    · have hrest : t.map (fun a => if key a = key b then b else a) = t := by
        refine (List.map_congr_left fun x hx => ?_).trans (List.map_id t)
        exact if_neg fun hx' => ha x hx (he.trans hx'.symm)
      rw [if_pos he, if_pos he, hrest]
    · rw [if_neg he, if_neg he, ih ht]
      rfl

/-- An update by key replaces one row. -/
theorem updateOne_replace (hu : Unique key t) (h : updateOne p f ok t = some u) (hp : ∀ a b, p a → p b → key a = key b)
    (hf : ∀ a, p a → key (f a) = key a) : ∃ a ∈ t, p a ∧ ok a (f a) ∧ key (f a) = key a ∧ u = Rows.replace key (f a) t := by
  obtain ⟨rfl, a, ha, hpa, hok⟩ := updateOne_eq_some h
  refine ⟨a, ha, hpa, hok, hf a hpa, ?_⟩
  unfold update Rows.replace
  refine List.map_congr_left fun x hx => ?_
  rw [hf a hpa]
  by_cases he : key x = key a
  · rw [hu.eq hx ha he, if_pos hpa, if_pos rfl]
  · rw [if_neg he, if_neg fun hpx => he (hp x a hpx hpa)]

end

end Rows
