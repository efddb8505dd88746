import Mathlib

/-!
# Length-prefixed byte framing

A preimage is a concatenation of framed fields. `Reads P f φ` says that the
output of `f` can be read off the front of any continuation, and that reading
it determines `φ`. Fields compose by `Reads.append`; a field whose layout
depends on what was read before it composes by `Reads.dependent`.
-/

namespace Framing

variable {α β γ δ : Type*}

/-- On `P`, the writer `f` is read back from the front of any continuation, up to `φ`. -/
def Reads (P : α → Prop) (f : α → List β) (φ : α → γ) : Prop :=
  ∀ ⦃a b⦄, P a → P b → ∀ ⦃u v⦄, f a ++ u = f b ++ v → φ a = φ b ∧ u = v

section
variable {P Q : α → Prop} {f g : α → List β} {φ : α → γ} {ψ : α → δ}

theorem Reads.mono (h : Reads P f φ) (hQ : ∀ a, Q a → P a) : Reads Q f φ :=
  fun _ _ ha hb _ _ e => h (hQ _ ha) (hQ _ hb) e

theorem Reads.eq (h : Reads P f φ) {a b : α} (ha : P a) (hb : P b) (e : f a = f b) : φ a = φ b :=
  (h (u := []) (v := []) ha hb (by rw [e])).1

/-- Reading back to `φ` is reading back to whatever `φ` determines. -/
theorem Reads.map (h : Reads P f φ) (hφ : ∀ a b, P a → P b → φ a = φ b → ψ a = ψ b) : Reads P f ψ :=
  fun _ _ ha hb _ _ e => ⟨hφ _ _ ha hb (h ha hb e).1, (h ha hb e).2⟩

/-- A value of the item under a writer of its own. -/
theorem Reads.first {ε : Type*} {R : ε → Prop} {w : ε → List β} (h : Reads R w id) (p : α → ε)
    (hp : ∀ {a}, P a → R (p a)) : Reads P (fun a => w (p a)) p :=
  fun _ _ ha hb _ _ e => h (hp ha) (hp hb) e

theorem Reads.append (hf : Reads P f φ) (hg : Reads P g ψ) :
    Reads P (fun a => f a ++ g a) (fun a => (φ a, ψ a)) := by
  intro a b ha hb u v e
  simp only [List.append_assoc] at e
  obtain ⟨h₁, e⟩ := hf ha hb e
  obtain ⟨h₂, e⟩ := hg ha hb e
  exact ⟨Prod.ext h₁ h₂, e⟩

/-- One more value behind what is already written. -/
theorem Reads.field {ε : Type*} {R : ε → Prop} {w : ε → List β} (hf : Reads P f φ) (h : Reads R w id) (p : α → ε)
    (hp : ∀ {a}, P a → R (p a)) : Reads P (fun a => f a ++ w (p a)) (fun a => (φ a, p a)) :=
  hf.append (h.first p hp)

/-- What follows a field may be laid out by what the field says. -/
theorem Reads.dependent (hf : Reads P f φ) (hg : ∀ k, Reads (fun a => P a ∧ φ a = k) g ψ) :
    Reads P (fun a => f a ++ g a) (fun a => (φ a, ψ a)) := by
  intro a b ha hb u v e
  simp only [List.append_assoc] at e
  obtain ⟨h₁, e⟩ := hf ha hb e
  obtain ⟨h₂, e⟩ := hg (φ b) ⟨ha, h₁⟩ ⟨hb, rfl⟩ e
  exact ⟨Prod.ext h₁ h₂, e⟩

theorem Reads.const (l : List β) : Reads P (fun _ => l) (fun _ => ()) :=
  fun _ _ _ _ _ _ e => ⟨rfl, List.append_cancel_left e⟩

/-- A field of fixed length is read back when it determines `φ`. -/
theorem Reads.fixed (n : Nat) (hn : ∀ a, P a → (f a).length = n) (hi : ∀ a b, P a → P b → f a = f b → φ a = φ b) :
    Reads P f φ := by
  intro a b ha hb u v e
  obtain ⟨h₁, h₂⟩ := List.append_inj e (by rw [hn a ha, hn b hb])
  exact ⟨hi a b ha hb h₁, h₂⟩

end

/-- As many items as both sides agree on are read back one by one. -/
theorem reads_flatMap {P : α → Prop} {f : α → List β} (h : Reads P f id) :
    ∀ {l m : List α}, (∀ a ∈ l, P a) → (∀ a ∈ m, P a) → l.length = m.length →
      ∀ {u v : List β}, l.flatMap f ++ u = m.flatMap f ++ v → l = m ∧ u = v
  | [], [], _, _, _, _, _, e => ⟨rfl, by simpa using e⟩
  | a :: l, b :: m, hl, hm, hn, u, v, e => by
    rw [List.flatMap_cons, List.flatMap_cons, List.append_assoc, List.append_assoc] at e
    obtain ⟨h₁, e⟩ := h (hl a List.mem_cons_self) (hm b List.mem_cons_self) e
    obtain ⟨h₂, e⟩ := reads_flatMap h (fun x hx => hl x (List.mem_cons_of_mem _ hx))
      (fun x hx => hm x (List.mem_cons_of_mem _ hx)) (by simpa using hn) e
    exact ⟨congrArg₂ List.cons h₁ h₂, e⟩

/-- Where no item is empty, the items are read back without their number. -/
theorem Reads.flatMap {P : α → Prop} {f : α → List β} {φ : α → γ} (h : Reads P f φ) (hne : ∀ a, P a → f a ≠ []) {l m : List α}
    (hl : ∀ a ∈ l, P a) (hm : ∀ a ∈ m, P a) (e : l.flatMap f = m.flatMap f) : l.map φ = m.map φ := by
  induction l generalizing m with
  | nil =>
    cases m with
    | nil => rfl
    | cons b m => exact absurd (List.append_eq_nil_iff.mp e.symm).1 (hne b (hm b List.mem_cons_self))
  | cons a l ih =>
    cases m with
    | nil => exact absurd (List.append_eq_nil_iff.mp e).1 (hne a (hl a List.mem_cons_self))
    | cons b m =>
      obtain ⟨h₁, e⟩ := h (hl a List.mem_cons_self) (hm b List.mem_cons_self) e
      exact congrArg₂ List.cons h₁ (ih (fun x hx => hl x (List.mem_cons_of_mem _ hx)) (fun x hx => hm x (List.mem_cons_of_mem _ hx)) e)

/-- What ends at its first `z` is read back. -/
theorem Reads.until {P : α → Prop} {f : α → List β} {φ : α → γ} (z : β) (hz : ∀ a, P a → z ∉ f a)
    (hi : ∀ a b, P a → P b → f a = f b → φ a = φ b) : Reads P (fun a => f a ++ [z]) φ := by
  intro a b ha hb u v e
  rw [List.append_assoc, List.append_assoc, List.singleton_append, List.singleton_append] at e
  have hsplit {l m : List β} (hl : z ∉ l) (hm : z ∉ m) (e : l ++ z :: u = m ++ z :: v) : l = m ∧ u = v := by
    induction l generalizing m with
    | nil =>
      cases m with
      | nil => exact ⟨rfl, (List.cons.inj e).2⟩
      | cons y m => exact absurd ((List.cons.inj e).1 ▸ List.mem_cons_self) hm
    | cons x l ih =>
      cases m with
      | nil => exact absurd ((List.cons.inj e).1 ▸ List.mem_cons_self) hl
      | cons y m =>
        rw [List.cons_append, List.cons_append, List.cons.injEq] at e
        obtain ⟨rfl, e⟩ := e
        obtain ⟨rfl, hu⟩ := ih (fun h => hl (List.mem_cons_of_mem _ h)) (fun h => hm (List.mem_cons_of_mem _ h)) e
        exact ⟨rfl, hu⟩
  obtain ⟨he, hu⟩ := hsplit (hz a ha) (hz b hb) e
  exact ⟨hi a b ha hb he, hu⟩

/-- Several values of one item under one writer are read back in order. -/
theorem reads_each {P : α → Prop} {Q : γ → Prop} {f : α → List β} (h : Reads P f id) (ps : List (γ → α))
    (hQ : ∀ c, Q c → ∀ p ∈ ps, P (p c)) :
    Reads Q (fun c => (ps.map (· c)).flatMap f) (fun c => ps.map (· c)) :=
  fun _ _ ha hb _ _ e =>
    reads_flatMap h (by simpa using hQ _ ha) (by simpa using hQ _ hb) (by simp) e

/-! ## Big-endian words and counted fields -/

/-- The low 64 bits of `n`, most significant byte first. -/
def be64 (n : Nat) : List UInt8 :=
  [.ofNat (n / 2 ^ 56), .ofNat (n / 2 ^ 48), .ofNat (n / 2 ^ 40), .ofNat (n / 2 ^ 32),
   .ofNat (n / 2 ^ 24), .ofNat (n / 2 ^ 16), .ofNat (n / 2 ^ 8), .ofNat n]

@[simp] theorem length_be64 (n : Nat) : (be64 n).length = 8 := rfl

theorem be64_inj {n m : Nat} (hn : n < 2 ^ 64) (hm : m < 2 ^ 64) (h : be64 n = be64 m) : n = m := by
  simp only [be64, List.cons.injEq, ← UInt8.toNat_inj, UInt8.toNat_ofNat', and_true] at h
  omega

theorem reads_be64 : Reads (· < 2 ^ 64) be64 id :=
  Reads.fixed 8 (fun _ _ => rfl) fun _ _ ha hb e => be64_inj ha hb e

/-- The low 16 bits of `n`, most significant byte first. -/
def be16 (n : Nat) : List UInt8 := [.ofNat (n / 2 ^ 8), .ofNat n]

theorem be16_inj {n m : Nat} (hn : n < 2 ^ 16) (hm : m < 2 ^ 16) (h : be16 n = be16 m) : n = m := by
  simp only [be16, List.cons.injEq, ← UInt8.toNat_inj, UInt8.toNat_ofNat', and_true] at h
  omega

/-- A byte field behind its length in 16 bits. -/
def prefixed16 (bs : List UInt8) : List UInt8 := be16 bs.length ++ bs

theorem reads_prefixed16 : Reads (fun bs : List UInt8 => bs.length < 2 ^ 16) prefixed16 id := by
  intro a b ha hb u v e
  simp only [prefixed16, List.append_assoc] at e
  obtain ⟨hn, e⟩ := List.append_inj e rfl
  exact List.append_inj e (be16_inj ha hb hn)

/-- The bytes of a 32-bit word, most significant first. -/
def be32 (w : UInt32) : List UInt8 :=
  [.ofNat (w.toNat / 2 ^ 24), .ofNat (w.toNat / 2 ^ 16), .ofNat (w.toNat / 2 ^ 8), .ofNat w.toNat]

theorem be32_inj {v w : UInt32} (h : be32 v = be32 w) : v = w := by
  simp only [be32, List.cons.injEq, ← UInt8.toNat_inj, UInt8.toNat_ofNat', and_true] at h
  have hv := v.toNat_lt
  have hw := w.toNat_lt
  exact UInt32.toNat_inj.mp (by omega)

/-- A byte field behind its length. -/
def counted (bs : List UInt8) : List UInt8 := be64 bs.length ++ bs

theorem reads_counted : Reads (fun bs : List UInt8 => bs.length < 2 ^ 64) counted id := by
  intro a b ha hb u v e
  simp only [counted, List.append_assoc] at e
  obtain ⟨hn, e⟩ := reads_be64 ha hb e
  exact List.append_inj e hn

/-- A list behind its length, each item by its own writer. -/
def countedList (f : α → List UInt8) (l : List α) : List UInt8 := be64 l.length ++ l.flatMap f

theorem reads_countedList {P : α → Prop} {f : α → List UInt8} (h : Reads P f id) :
    Reads (fun l : List α => l.length < 2 ^ 64 ∧ ∀ a ∈ l, P a) (countedList f) id := by
  intro l m hl hm u v e
  simp only [countedList, List.append_assoc] at e
  obtain ⟨hn, e⟩ := reads_be64 hl.1 hm.1 e
  exact reads_flatMap h hl.2 hm.2 hn e

end Framing
