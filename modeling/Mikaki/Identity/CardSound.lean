import Mikaki.Identity.Card

/-!
# A PIN is verified once

What a reader sends, against any card: the PINs are verified one after the
other, each behind the selection of its file, while nothing has failed; reading
sends no PIN, and every part of it ends.
-/

namespace Mikaki.Identity.Card

open Concurrent Dialogue

/-! ## What is sent -/

def isVerify (cmd : Bytes) : Bool := cmd[1]? = some 0x20

def isSelect (cmd : Bytes) : Bool := cmd[1]? = some 0xa4

abbrev Steps := List (Bytes × Except CardFailure Bytes)

/-- The last selection of a file. -/
def lastSelect (selected : Bytes) : Steps → Bytes
  | [] => selected
  | s :: t => lastSelect (if isSelect s.1 = true then s.1 else selected) t

/-- Every PIN that was sent, with the selection it was sent behind. -/
def attempts (selected : Bytes) : Steps → List (Bytes × Bytes)
  | [] => []
  | s :: t =>
    (if isVerify s.1 = true then [(selected, s.1)] else []) ++ attempts (if isSelect s.1 = true then s.1 else selected) t

/-- The reply lets the step go on: it succeeded, or has more to fetch. -/
def Passed (reply : Except CardFailure Bytes) : Prop :=
  ∃ response, reply = .ok response ∧ 2 ≤ response.length ∧ response.length ≤ maxEf + 2 ∧
    (statusWord response = 0x9000 ∨ statusWord response >>> 8 = 0x61)

/-- One exchange after another, each of which has succeeded. -/
inductive Completed : Steps → Prop
  | nil : Completed []
  | step {t u : Steps} {cmd data : Bytes} (ht : Completed t) (hu : Traces (checked cmd).run u (.ok data)) : Completed (t ++ u)

/-- Nothing has failed: neither a whole exchange nor a single reply. -/
structure Succeeded (t : Steps) : Prop where
  completed : Completed t
  passed : ∀ s ∈ t, Passed s.2

/-- No PIN is sent after anything has failed. -/
def Clean (t : Steps) : Prop :=
  ∀ before s after, t = before ++ s :: after → isVerify s.1 = true → Succeeded before

theorem Completed.append {t u : Steps} (ht : Completed t) (hu : Completed u) : Completed (t ++ u) := by
  induction hu with
  | nil => rwa [List.append_nil]
  | step _ hx ih =>
    rw [← List.append_assoc]
    exact ih.step hx

theorem succeeded_nil : Succeeded [] := ⟨.nil, fun _ h => by cases h⟩

theorem Succeeded.append {t u : Steps} (ht : Succeeded t) (hu : Succeeded u) : Succeeded (t ++ u) :=
  ⟨ht.completed.append hu.completed, fun s hs => (List.mem_append.mp hs).elim (ht.passed s) (hu.passed s)⟩

theorem attempts_append (selected : Bytes) (t u : Steps) :
    attempts selected (t ++ u) = attempts selected t ++ attempts (lastSelect selected t) u := by
  induction t generalizing selected with
  | nil => rfl
  | cons s t ih => rw [List.cons_append, attempts, attempts, ih, lastSelect, List.append_assoc]

theorem lastSelect_append (selected : Bytes) (t u : Steps) :
    lastSelect selected (t ++ u) = lastSelect (lastSelect selected t) u := by
  induction t generalizing selected with
  | nil => rfl
  | cons s t ih => exact ih _

theorem attempts_of_none {t : Steps} (h : ∀ s ∈ t, isVerify s.1 = false) (selected : Bytes) : attempts selected t = [] := by
  induction t generalizing selected with
  | nil => rfl
  | cons s t ih =>
    rw [attempts, h s List.mem_cons_self, ih fun u hu => h u (List.mem_cons_of_mem _ hu)]
    rfl

theorem lastSelect_of_none {t : Steps} (h : ∀ s ∈ t, isSelect s.1 = false) (selected : Bytes) :
    lastSelect selected t = selected := by
  induction t generalizing selected with
  | nil => rfl
  | cons s t ih =>
    rw [lastSelect, h s List.mem_cons_self]
    exact ih (fun u hu => h u (List.mem_cons_of_mem _ hu)) _

theorem clean_of_none {t : Steps} (h : ∀ s ∈ t, isVerify s.1 = false) : Clean t := by
  intro before s after ht hs
  rw [h s (by rw [ht]; exact List.mem_append_right _ List.mem_cons_self)] at hs
  cases hs

theorem clean_cons {s : Bytes × Except CardFailure Bytes} {t : Steps} (h : ∀ u ∈ t, isVerify u.1 = false) : Clean (s :: t) := by
  intro before u after ht hu
  cases before with
  | nil => exact succeeded_nil
  | cons b before =>
    obtain ⟨-, rfl⟩ := List.cons.inj ht
    rw [h u (List.mem_append_right _ List.mem_cons_self)] at hu
    cases hu

theorem clean_append {t u : Steps} (ht : Succeeded t) (hc : Clean t) (hu : Clean u) : Clean (t ++ u) := by
  intro before s after h hs
  rcases List.append_eq_append_iff.mp h with ⟨mid, rfl, hm⟩ | ⟨mid, rfl, hm⟩
  · exact ht.append (hu mid s after hm hs)
  · cases mid with
    | nil =>
      rw [List.append_nil] at ht
      exact ht
    | cons m mid =>
      obtain ⟨rfl, -⟩ := List.cons.inj hm
      exact hc before _ mid rfl hs

theorem clean_quiet {t u : Steps} (hc : Clean t) (hu : ∀ s ∈ u, isVerify s.1 = false) : Clean (t ++ u) := by
  intro before s after h hs
  rcases List.append_eq_append_iff.mp h with ⟨mid, rfl, hm⟩ | ⟨mid, rfl, hm⟩
  · rw [hu s (by rw [hm]; exact List.mem_append_right _ List.mem_cons_self)] at hs
    cases hs
  · cases mid with
    | nil =>
      rw [List.nil_append] at hm
      rw [hu s (by rw [← hm]; exact List.mem_cons_self)] at hs
      cases hs
    | cons m mid =>
      obtain ⟨rfl, -⟩ := List.cons.inj hm
      exact hc before _ mid rfl hs

/-! ## One exchange -/

/-- Fetching and repeating a read neither select nor verify. -/
def quiet (cmd : Bytes) : Bool := !isVerify cmd && !isSelect cmd

theorem quiet_verify {cmd : Bytes} (h : quiet cmd = true) : isVerify cmd = false := by
  unfold quiet at h
  rw [Bool.and_eq_true] at h
  exact Bool.not_eq_true' _ ▸ h.1

theorem quiet_select {cmd : Bytes} (h : quiet cmd = true) : isSelect cmd = false := by
  unfold quiet at h
  rw [Bool.and_eq_true] at h
  exact Bool.not_eq_true' _ ▸ h.2

theorem quiet_correct {cmd : Bytes} (hq : quiet cmd = true) (hl : 2 < cmd.length) (le : UInt8) :
    quiet (cmd.dropLast ++ [le]) = true ∧ 2 < (cmd.dropLast ++ [le]).length := by
  have hlen : cmd.dropLast.length = cmd.length - 1 := List.length_dropLast
  have hone : (cmd.dropLast ++ [le])[1]? = cmd[1]? := by
    rw [List.getElem?_append_left (by omega), List.getElem?_dropLast, if_pos (by omega)]
  constructor
  · unfold quiet isVerify isSelect at hq ⊢
    rwa [hone]
  · rw [List.length_append, List.length_singleton]
    omega

/-- The command goes out first, and what follows it is quiet. -/
def Follows (cmd : Bytes) (t : Steps) : Prop := ∃ x rest, t = (cmd, x) :: rest ∧ ∀ s ∈ rest, quiet s.1 = true

theorem exchangeLoop_traces {canCorrect : Bool} (n : Nat) {cmd data : Bytes} {t : Steps}
    {r : Except CardFailure (Bytes × UInt16)} (hq : canCorrect = true → quiet cmd = true ∧ 2 < cmd.length)
    (h : Traces (exchangeLoop canCorrect n cmd data).run t r) :
    t.length ≤ n ∧ (t = [] ∨ Follows cmd t) ∧ ∀ got, r = .ok got → (data.length ≤ maxEf → got.1.length ≤ maxEf) ∧
      (canCorrect = false → got.2 = 0x9000 → ∀ s ∈ t, Passed s.2) := by
  induction n generalizing cmd data t r with
  | zero =>
    obtain ⟨rfl, rfl⟩ := traces_throw h
    exact ⟨Nat.le_refl _, .inl rfl, fun _ h => by cases h⟩
  | succ n ih =>
    rcases h.andThen with ⟨error, rfl, hx⟩ | ⟨before, after, response, rfl, hx, hk⟩
    · obtain ⟨y, rfl, -⟩ := traces_query hx
      exact ⟨Nat.le_add_left _ _, .inr ⟨y, [], rfl, fun _ h => by cases h⟩, fun _ h => by cases h⟩
    obtain ⟨y, rfl, hy⟩ := traces_query hx
    -- the command has been answered by `response`
    have hone : ([(cmd, y)] : Steps).length ≤ n + 1 := Nat.le_add_left _ _
    have hfirst : Follows cmd ([(cmd, y)] : Steps) := ⟨y, [], rfl, fun _ h => by cases h⟩
    have htail : ∀ {next : Bytes} {u : Steps}, quiet next = true → (u = [] ∨ Follows next u) → Follows cmd ([(cmd, y)] ++ u) := by
      intro next u hn hu
      refine ⟨y, u, rfl, fun s hs => ?_⟩
      rcases hu with rfl | ⟨x, rest, rfl, hrest⟩
      · cases hs
      · rcases List.mem_cons.mp hs with rfl | hs
        · exact hn
        · exact hrest s hs
    by_cases hlen : response.length < 2 ∨ response.length > maxEf + 2
    · rw [if_pos hlen] at hk
      obtain ⟨rfl, rfl⟩ := traces_throw hk
      exact ⟨hone, .inr hfirst, fun _ h => by cases h⟩
    rw [if_neg hlen] at hk
    rw [not_or, not_lt, not_lt] at hlen
    by_cases hc : statusWord response >>> 8 = 0x6c ∧ canCorrect = true ∧ data = []
    · rw [if_pos hc] at hk
      by_cases hnil : cmd = []
      · rw [if_pos hnil] at hk
        obtain ⟨rfl, rfl⟩ := traces_throw hk
        exact ⟨hone, .inr hfirst, fun _ h => by cases h⟩
      · rw [if_neg hnil] at hk
        obtain ⟨hquiet, hl⟩ := hq hc.2.1
        have hnext := quiet_correct hquiet hl (statusWord response).toUInt8
        obtain ⟨hn, hf, hr⟩ := ih (fun _ => hnext) hk
        refine ⟨Nat.succ_le_succ hn, .inr (htail hnext.1 hf), fun got hg => ⟨(hr got hg).1, fun hcc => ?_⟩⟩
        rw [hcc] at hc
        cases hc.2.1
    rw [if_neg hc] at hk
    by_cases hmax : data.length + (payload response).length > maxEf
    · rw [if_pos hmax] at hk
      obtain ⟨rfl, rfl⟩ := traces_throw hk
      exact ⟨hone, .inr hfirst, fun _ h => by cases h⟩
    rw [if_neg hmax] at hk
    rw [not_lt] at hmax
    have hdata : (data ++ payload response).length ≤ maxEf := by rw [List.length_append]; exact hmax
    by_cases hmore : statusWord response >>> 8 = 0x61
    · rw [if_pos hmore] at hk
      obtain ⟨hn, hf, hr⟩ := ih (fun _ => ⟨rfl, Nat.lt_of_sub_eq_succ rfl⟩) hk
      refine ⟨Nat.succ_le_succ hn, .inr (htail rfl hf), fun got hg => ⟨fun _ => (hr got hg).1 hdata, ?_⟩⟩
      intro hcc hsw s hs
      rcases List.mem_append.mp hs with hs | hs
      · obtain rfl := List.mem_singleton.mp hs
        exact ⟨response, hy.symm, hlen.1, hlen.2, .inr hmore⟩
      · exact (hr got hg).2 hcc hsw s hs
    · rw [if_neg hmore] at hk
      obtain ⟨rfl, rfl⟩ := traces_pure hk
      refine ⟨hone, .inr hfirst, fun got hg => ?_⟩
      cases hg
      refine ⟨fun _ => hdata, fun _ hsw s hs => ?_⟩
      obtain rfl := List.mem_singleton.mp hs
      exact ⟨response, hy.symm, hlen.1, hlen.2, .inl hsw⟩

theorem exchange_traces {cmd : Bytes} {t : Steps} {r : Except CardFailure (Bytes × UInt16)}
    (hl : cmd[1]? = some 0xb0 → 2 < cmd.length) (h : Traces (exchange cmd).run t r) :
    t.length ≤ 16 ∧ (t = [] ∨ Follows cmd t) ∧ ∀ got, r = .ok got → got.1.length ≤ maxEf ∧
      (cmd[1]? ≠ some 0xb0 → got.2 = 0x9000 → ∀ s ∈ t, Passed s.2) := by
  have hq : decide (cmd[1]? = some 0xb0) = true → quiet cmd = true ∧ 2 < cmd.length := by
    intro hc
    have hone := of_decide_eq_true hc
    refine ⟨?_, hl hone⟩
    unfold quiet isVerify isSelect
    rw [hone]
    rfl
  obtain ⟨hn, hf, hr⟩ := exchangeLoop_traces 16 hq h
  exact ⟨hn, hf, fun got hg => ⟨(hr got hg).1 (Nat.zero_le _), fun hc => (hr got hg).2 (decide_eq_false hc)⟩⟩

/-! ## Verifying, then reading -/

/-- Of `wanted` a first part has been verified, within `n` commands and while nothing had failed. -/
structure Fits (selected : Bytes) (wanted : List (Bytes × Bytes)) (n : Nat) (t : Steps) : Prop where
  bounded : t.length ≤ n
  verified : attempts selected t <+: wanted
  clean : Clean t

/-- The program sets the card up: where it ends well, all of `wanted` has been verified and `last` is selected. -/
def Setup {α : Type} (selected : Bytes) (wanted : List (Bytes × Bytes)) (last : Bytes) (n : Nat) (x : Reading α) : Prop :=
  ∀ t r, Traces x.run t r → Fits selected wanted n t ∧ ∀ a, r = .ok a →
    attempts selected t = wanted ∧ lastSelect selected t = last ∧ Succeeded t

/-- The program verifies nothing, and what it reads is `Q`. -/
def Reads {α : Type} (n : Nat) (x : Reading α) (Q : α → Prop) : Prop :=
  ∀ t r, Traces x.run t r → t.length ≤ n ∧ (∀ s ∈ t, isVerify s.1 = false) ∧ ∀ a, r = .ok a → Q a

/-- A whole reading: first the PINs, then the files. -/
def Document {α : Type} (selected : Bytes) (wanted : List (Bytes × Bytes)) (n : Nat) (x : Reading α) (Q : α → Prop) : Prop :=
  ∀ t r, Traces x.run t r → Fits selected wanted n t ∧ ∀ a, r = .ok a → Q a

section
variable {α β : Type} {x : Reading α} {f : α → Reading β} {selected middle last : Bytes} {wanted more : List (Bytes × Bytes)}
  {m n : Nat}

theorem Setup.andThen (h : Setup selected wanted middle m x) (hf : ∀ a, Setup middle more last n (f a)) :
    Setup selected (wanted ++ more) last (m + n) (x >>= f) := by
  intro t r ht
  rcases ht.andThen with ⟨e, rfl, hx⟩ | ⟨before, after, a, rfl, hx, hk⟩
  · obtain ⟨hfit, -⟩ := h t _ hx
    refine ⟨⟨Nat.le_add_right_of_le hfit.bounded, ?_, hfit.clean⟩, fun _ h => by cases h⟩
    exact hfit.verified.trans (List.prefix_append _ _)
  · obtain ⟨hfit, hok⟩ := h before _ hx
    obtain ⟨hv, hl, hp⟩ := hok a rfl
    obtain ⟨hfit', hok'⟩ := hf a after r hk
    refine ⟨⟨?_, ?_, clean_append hp hfit.clean hfit'.clean⟩, fun b hb => ?_⟩
    · rw [List.length_append]
      exact Nat.add_le_add hfit.bounded hfit'.bounded
    · rw [attempts_append, hv, hl]
      exact (List.prefix_append_right_inj wanted).mpr hfit'.verified
    · obtain ⟨hv', hl', hp'⟩ := hok' b hb
      rw [attempts_append, lastSelect_append, hv, hl, hv', hl']
      exact ⟨rfl, rfl, hp.append hp'⟩

theorem Setup.andReads {Q : β → Prop} (h : Setup selected wanted last m x) (hf : ∀ a, Reads n (f a) Q) :
    Document selected wanted (m + n) (x >>= f) Q := by
  intro t r ht
  rcases ht.andThen with ⟨e, rfl, hx⟩ | ⟨before, after, a, rfl, hx, hk⟩
  · obtain ⟨hfit, -⟩ := h t _ hx
    exact ⟨⟨Nat.le_add_right_of_le hfit.bounded, hfit.verified, hfit.clean⟩, fun _ h => by cases h⟩
  · obtain ⟨hfit, hok⟩ := h before _ hx
    obtain ⟨hv, -, -⟩ := hok a rfl
    obtain ⟨hn, hq, hr⟩ := hf a after r hk
    refine ⟨⟨?_, ?_, clean_quiet hfit.clean hq⟩, hr⟩
    · rw [List.length_append]
      exact Nat.add_le_add hfit.bounded hn
    · rw [attempts_append, hv, attempts_of_none hq, List.append_nil]

theorem Setup.andDocument {Q : β → Prop} (h : Setup selected wanted middle m x)
    (hf : ∀ a, Document middle more n (f a) Q) : Document selected (wanted ++ more) (m + n) (x >>= f) Q := by
  intro t r ht
  rcases ht.andThen with ⟨e, rfl, hx⟩ | ⟨before, after, a, rfl, hx, hk⟩
  · obtain ⟨hfit, -⟩ := h t _ hx
    refine ⟨⟨Nat.le_add_right_of_le hfit.bounded, ?_, hfit.clean⟩, fun _ h => by cases h⟩
    exact hfit.verified.trans (List.prefix_append _ _)
  · obtain ⟨hfit, hok⟩ := h before _ hx
    obtain ⟨hv, hl, hp⟩ := hok a rfl
    obtain ⟨hfit', hr⟩ := hf a after r hk
    refine ⟨⟨?_, ?_, clean_append hp hfit.clean hfit'.clean⟩, hr⟩
    · rw [List.length_append]
      exact Nat.add_le_add hfit.bounded hfit'.bounded
    · rw [attempts_append, hv, hl]
      exact (List.prefix_append_right_inj wanted).mpr hfit'.verified

theorem Reads.andThen {P : α → Prop} {Q : β → Prop} (h : Reads m x P) (hf : ∀ a, P a → Reads n (f a) Q) :
    Reads (m + n) (x >>= f) Q := by
  intro t r ht
  rcases ht.andThen with ⟨e, rfl, hx⟩ | ⟨before, after, a, rfl, hx, hk⟩
  · obtain ⟨hm, hq, -⟩ := h t _ hx
    exact ⟨Nat.le_add_right_of_le hm, hq, fun _ h => by cases h⟩
  · obtain ⟨hm, hq, hr⟩ := h before _ hx
    obtain ⟨hn, hq', hr'⟩ := hf a (hr a rfl) after r hk
    refine ⟨?_, fun s hs => (List.mem_append.mp hs).elim (hq s) (hq' s), hr'⟩
    rw [List.length_append]
    exact Nat.add_le_add hm hn

theorem Reads.mono {Q : α → Prop} (h : Reads m x Q) (hn : m ≤ n) : Reads n x Q :=
  fun t r ht => ⟨(h t r ht).1.trans hn, (h t r ht).2⟩

theorem reads_pure {a : α} {Q : α → Prop} (h : Q a) : Reads n (pure a : Reading α) Q := by
  intro t r ht
  obtain ⟨rfl, rfl⟩ := traces_pure ht
  exact ⟨Nat.zero_le _, (fun _ h => by cases h), fun _ hb => by cases hb; exact h⟩

theorem reads_throw {e : CardFailure} {Q : α → Prop} : Reads n (throw e : Reading α) Q := by
  intro t r ht
  obtain ⟨rfl, rfl⟩ := traces_throw ht
  exact ⟨Nat.zero_le _, (fun _ h => by cases h), fun _ h => by cases h⟩

/-- What a parser says of the bytes that were read. -/
theorem reads_parse {result : Except CardFailure α} : Reads n (ExceptT.mk (pure result) : Reading α) fun _ => True := by
  intro t r ht
  obtain ⟨rfl, -⟩ := ht
  exact ⟨Nat.zero_le _, (fun _ h => by cases h), fun _ _ => trivial⟩

end

/-! ## The parts -/

theorem checked_traces {cmd : Bytes} {t : Steps} {r : Except CardFailure Bytes} (hb : cmd[1]? ≠ some 0xb0)
    (h : Traces (checked cmd).run t r) :
    t.length ≤ 16 ∧ (t = [] ∨ Follows cmd t) ∧ ∀ a, r = .ok a → ∀ s ∈ t, Passed s.2 := by
  have hl : cmd[1]? = some 0xb0 → 2 < cmd.length := fun h => absurd h hb
  rcases h.andThen with ⟨e, rfl, hx⟩ | ⟨before, after, got, rfl, hx, hk⟩
  · obtain ⟨hn, hf, -⟩ := exchange_traces hl hx
    exact ⟨hn, hf, fun _ h => by cases h⟩
  · obtain ⟨hn, hf, hr⟩ := exchange_traces hl hx
    by_cases hsw : got.2 ≠ 0x9000
    · rw [if_pos hsw] at hk
      obtain ⟨rfl, rfl⟩ := traces_throw hk
      rw [List.append_nil]
      exact ⟨hn, hf, fun _ h => by cases h⟩
    · rw [if_neg hsw] at hk
      obtain ⟨rfl, rfl⟩ := traces_pure hk
      rw [List.append_nil]
      exact ⟨hn, hf, fun _ _ => (hr got rfl).2 hb (not_not.mp hsw)⟩

theorem Follows.attempts {cmd : Bytes} {t : Steps} (h : Follows cmd t) (selected : Bytes) :
    Card.attempts selected t = (if isVerify cmd = true then [(selected, cmd)] else []) ∧
      lastSelect selected t = (if isSelect cmd = true then cmd else selected) ∧ Clean t := by
  obtain ⟨x, rest, rfl, hq⟩ := h
  have hv : ∀ s ∈ rest, isVerify s.1 = false := fun s hs => quiet_verify (hq s hs)
  refine ⟨?_, ?_, clean_cons hv⟩
  · rw [Card.attempts, attempts_of_none hv, List.append_nil]
  · rw [lastSelect, lastSelect_of_none fun s hs => quiet_select (hq s hs)]

/-- An exchange that has not succeeded at once has sent something. -/
theorem checked_sent {cmd : Bytes} {t : Steps} {a : Bytes} (h : Traces (checked cmd).run t (.ok a)) : t ≠ [] := by
  rintro rfl
  rcases h.andThen with ⟨e, h, -⟩ | ⟨before, after, got, ht, hx, -⟩
  · cases h
  · obtain ⟨rfl, -⟩ := List.append_eq_nil_iff.mp ht.symm
    rcases hx.andThen with ⟨e, h, -⟩ | ⟨before, after, response, ht, hx, -⟩
    · cases h
    · obtain ⟨y, rfl, -⟩ := traces_query hx
      cases ht

theorem setup_checked {cmd selected : Bytes} (hb : cmd[1]? ≠ some 0xb0) :
    Setup selected (if isVerify cmd = true then [(selected, cmd)] else []) (if isSelect cmd = true then cmd else selected) 16
      (checked cmd) := by
  intro t r ht
  obtain ⟨hn, hf, hp⟩ := checked_traces hb ht
  rcases hf with rfl | hf
  · refine ⟨⟨hn, List.nil_prefix, fun before s after h => ?_⟩, fun a ha => ?_⟩
    · exact absurd h.symm (List.append_ne_nil_of_right_ne_nil _ (List.cons_ne_nil _ _))
    · subst ha
      exact absurd rfl (checked_sent ht)
  · obtain ⟨ha, hl, hc⟩ := hf.attempts selected
    refine ⟨⟨hn, by rw [ha], hc⟩, fun a hr => ⟨ha, hl, ?_, hp a hr⟩⟩
    subst hr
    have hone := Completed.nil.step ht
    rwa [List.nil_append] at hone

theorem setup_pure (n : Nat) (selected : Bytes) : Setup selected [] selected n (pure () : Reading Unit) := by
  intro t r ht
  obtain ⟨rfl, rfl⟩ := traces_pure ht
  exact ⟨⟨Nat.zero_le _, List.prefix_refl _, clean_of_none fun _ h => by cases h⟩,
    fun _ _ => ⟨rfl, rfl, succeeded_nil⟩⟩

theorem Setup.done {α : Type} {selected last : Bytes} {verified : List (Bytes × Bytes)} {n : Nat} {x : Reading α}
    (h : Setup selected verified last n x) : Setup selected verified last n (x >>= fun _ => pure ()) := by
  have hd := h.andThen fun _ => setup_pure 0 last
  rwa [List.append_nil] at hd

theorem setup_selectEf (ef selected : Bytes) : Setup selected [] (selectEfCommand ef) 16 (selectEf ef) := by
  have h : Setup selected [] (selectEfCommand ef) 16 (checked (selectEfCommand ef)) :=
    setup_checked (by rw [show (selectEfCommand ef)[1]? = some 0xa4 from rfl]; decide)
  exact h.done

theorem setup_verifyPin (pin : String) (selected : Bytes) :
    Setup selected [(selected, verifyCommand pin)] selected 16 (verifyPin pin) := by
  have h : Setup selected [(selected, verifyCommand pin)] selected 16 (checked (verifyCommand pin)) :=
    setup_checked (by rw [show (verifyCommand pin)[1]? = some 0x20 from rfl]; decide)
  exact h.done

theorem reads_exchange {cmd : Bytes} (hv : isVerify cmd = false) (hl : cmd[1]? = some 0xb0 → 2 < cmd.length) :
    Reads 16 (exchange cmd) fun got => got.1.length ≤ maxEf := by
  intro t r ht
  obtain ⟨hn, hf, hr⟩ := exchange_traces hl ht
  refine ⟨hn, fun s hs => ?_, fun got hg => (hr got hg).1⟩
  rcases hf with rfl | ⟨x, rest, rfl, hq⟩
  · cases hs
  · rcases List.mem_cons.mp hs with rfl | hs
    · exact hv
    · exact quiet_verify (hq s hs)

theorem reads_checked {cmd : Bytes} (hv : isVerify cmd = false) (hl : cmd[1]? = some 0xb0 → 2 < cmd.length) :
    Reads 16 (checked cmd) fun _ => True := by
  refine (reads_exchange hv hl).andThen (n := 0) fun got _ => ?_
  by_cases hsw : got.2 ≠ 0x9000
  · rw [if_pos hsw]
    exact reads_throw
  · rw [if_neg hsw]
    exact reads_pure trivial

/-- Every chunk but the last has 256 bytes or more, so that sixteen of them fill a file. -/
theorem reads_chunks (k : Nat) {data : Bytes} (hk : maxEf - data.length ≤ k) :
    Reads (16 * ((maxEf - data.length + 255) / 256)) (readChunks data) fun file => file.length ≤ maxEf := by
  induction k using Nat.strong_induction_on generalizing data with
  | h k ih =>
    rw [readChunks]
    by_cases hd : maxEf ≤ data.length
    · rw [dif_pos hd]
      exact reads_throw
    rw [dif_neg hd]
    have hsplit : 16 * ((maxEf - data.length + 255) / 256) = 16 + 16 * ((maxEf - data.length - 1) / 256) := by
      unfold maxEf at hd ⊢
      omega
    rw [hsplit]
    refine (reads_exchange rfl fun _ => by simp [ApduCommand.toBytes]).andThen fun got hgot => ?_
    by_cases hend : got.2 = 0x6b00 ∧ data ≠ [] ∧ got.1 = []
    · rw [if_pos hend]
      exact reads_pure (Nat.le_of_lt (not_le.mp hd))
    rw [if_neg hend]
    by_cases hsw : got.2 ≠ 0x9000 ∧ got.2 ≠ 0x6282
    · rw [if_pos hsw]
      exact reads_throw
    rw [if_neg hsw]
    by_cases hmax : data.length + got.1.length > maxEf
    · rw [if_pos hmax]
      exact reads_throw
    rw [if_neg hmax]
    by_cases hs : got.2 = 0x6282 ∨ got.1.length < 256
    · rw [dif_pos hs]
      exact reads_pure (by rw [List.length_append]; exact not_lt.mp hmax)
    rw [dif_neg hs]
    simp only [not_or, not_lt] at hs hmax
    have hlen : (data ++ got.1).length = data.length + got.1.length := List.length_append
    refine (ih (maxEf - (data ++ got.1).length) (by omega) (Nat.le_refl _)).mono ?_
    exact Nat.mul_le_mul_left 16 (Nat.div_le_div_right (by omega))

theorem reads_ef (ef : Bytes) : Reads 272 (readEf ef) fun file => file.length ≤ maxEf := by
  refine Reads.andThen (P := fun _ => True) (m := 16) (n := 256) ?_ fun _ _ => reads_chunks maxEf (Nat.sub_le _ _)
  exact (reads_checked rfl (fun h => by cases h)).andThen (n := 0) fun _ _ => reads_pure trivial

theorem setup_selectInputSupport (selected : Bytes) :
    Setup selected [] ((ApduCommand.new 0 0xa4 4 0x0c).withData dfInputSupport).toBytes 16 selectInputSupport := by
  have h : Setup selected [] ((ApduCommand.new 0 0xa4 4 0x0c).withData dfInputSupport).toBytes 16
      (checked ((ApduCommand.new 0 0xa4 4 0x0c).withData dfInputSupport).toBytes) := setup_checked (by decide)
  exact h.done

theorem setup_verifyLicensePin (id : UInt8) (value : String) (selected : Bytes) :
    Setup selected [(selectEfCommand [0, id], verifyCommand value)] (selectEfCommand [0, id]) 48 (verifyLicensePin id value) := by
  have h : Setup selected [] [0, 0xa4, 0, 0] 16 (checked [0, 0xa4, 0, 0]) := setup_checked (by decide)
  exact h.andThen fun _ => (setup_selectEf [0, id] _).andThen fun _ => setup_verifyPin value _

/-! ## Documents -/

/-- The PINs of a document, each with the selection of its file. -/
def wanted (kind : DocumentType) (pin : String) (pin2 : Option String) : List (Bytes × Bytes) :=
  match kind with
  | .passport => []
  | .myNumberCard => [(selectEfCommand efInputSupportPin, verifyCommand pin)]
  | .drivingLicense =>
    [(selectEfCommand [0, 1], verifyCommand pin)] ++ pin2.toList.map fun pin2 => (selectEfCommand [0, 2], verifyCommand pin2)

theorem wanted_nodup (kind : DocumentType) (pin : String) (pin2 : Option String) : (wanted kind pin pin2).Nodup := by
  cases kind with
  | passport => exact List.nodup_nil
  | myNumberCard => exact List.nodup_singleton _
  | drivingLicense =>
    cases pin2 with
    | none => exact List.nodup_singleton _
    | some pin2 =>
      refine List.nodup_cons.mpr ⟨fun h => ?_, List.nodup_singleton _⟩
      have hfile : selectEfCommand [0, 1] = selectEfCommand [0, 2] := congrArg Prod.fst (List.mem_singleton.mp h)
      revert hfile
      decide

theorem setup_verifyLicensePins (pin : String) (pin2 : Option String) :
    ∃ last, Setup [] (wanted .drivingLicense pin pin2) last 96 (verifyLicensePins pin pin2) := by
  cases pin2 with
  | none => exact ⟨_, (setup_verifyLicensePin 1 pin []).andThen fun _ => setup_pure 48 _⟩
  | some pin2 => exact ⟨_, (setup_verifyLicensePin 1 pin []).andThen fun _ => setup_verifyLicensePin 2 pin2 _⟩

def Evidence.Bounded (evidence : Evidence) : Prop :=
  evidence.attributes.length ≤ maxEf ∧ evidence.signature.length ≤ maxEf ∧ evidence.domicile.length ≤ maxEf ∧
    evidence.photo.length ≤ maxEf

theorem reads_guarded {evidence : Evidence} (ha : evidence.attributes.length ≤ maxEf) (hs : evidence.signature.length ≤ maxEf) :
    Reads 560 (readGuarded evidence) Evidence.Bounded := by
  refine Reads.andThen (m := 272) (n := 288) (reads_ef _) fun domicile hd => ?_
  refine Reads.andThen (m := 16) (n := 272) (reads_checked (by decide) (by decide)) fun _ _ => ?_
  refine Reads.andThen (m := 272) (n := 0) (reads_ef _) fun photo hp => ?_
  exact reads_pure ⟨ha, hs, hd, hp⟩

theorem reads_licenseEvidence (pin2 : Option String) : Reads 1120 (readLicenseEvidence pin2) Evidence.Bounded := by
  refine Reads.andThen (m := 16) (n := 1104) (reads_checked (by decide) (by decide)) fun _ _ => ?_
  refine Reads.andThen (m := 272) (n := 832) (reads_ef _) fun attributes ha => ?_
  refine Reads.andThen (m := 272) (n := 560) (reads_ef _) fun signature hs => ?_
  cases pin2 with
  | none => exact reads_pure ⟨ha, hs, Nat.zero_le _, Nat.zero_le _⟩
  | some _ => exact reads_guarded ha hs

theorem document_attributes (pin : String) :
    Document [] (wanted .myNumberCard pin none) 320 (readAttributes pin) fun raw => raw.length ≤ maxEf := by
  refine (setup_selectInputSupport []).andDocument (n := 304) fun _ => ?_
  refine (setup_selectEf efInputSupportPin _).andDocument (n := 288) fun _ => ?_
  exact (setup_verifyPin pin _).andReads fun _ => reads_ef efAttributes

/-- A PIN that is not well formed ends the reading before it begins. -/
theorem validated {α : Type} {pin : String} {f : Unit → Reading α} {t : Steps} {r : Except CardFailure α}
    (h : Traces (validatePin pin >>= f).run t r) : (t = [] ∧ ∃ e, r = .error e) ∨ (validPin pin = true ∧ Traces (f ()).run t r) := by
  rcases h.andThen with ⟨e, rfl, hx⟩ | ⟨before, after, u, rfl, hx, hk⟩
  · exact .inl ⟨(traces_fails hx).1, e, rfl⟩
  · obtain ⟨rfl, ⟨-, hr⟩ | ⟨hv, -⟩⟩ := traces_fails hx
    · cases hr
    · exact .inr ⟨Bool.not_eq_false _ ▸ hv, hk⟩

theorem validated_pins {α : Type} {pin : String} {pin2 : Option String} {f : Unit → Reading α} {t : Steps}
    {r : Except CardFailure α} (h : Traces (validatePins pin pin2 >>= f).run t r) :
    (t = [] ∧ ∃ e, r = .error e) ∨
      ((validPin pin = true ∧ ∀ p ∈ pin2, validPin p = true) ∧ Traces (f ()).run t r) := by
  unfold validatePins at h
  rw [bind_assoc] at h
  rcases validated h with h | ⟨hv, h⟩
  · exact .inl h
  · cases pin2 with
    | none => exact .inr ⟨⟨hv, fun p hp => by cases hp⟩, h⟩
    | some pin2 =>
      rcases validated h with h | ⟨hv2, h⟩
      · exact .inl h
      · refine .inr ⟨⟨hv, fun p hp => ?_⟩, h⟩
        obtain rfl := Option.some.inj hp
        exact hv2

section
variable [Parsers]

theorem document_myNumberCard (pin : String) (pin2 : Option String) :
    Document [] (wanted .myNumberCard pin pin2) 592 (readMyNumberCard pin) fun read => read.2.Bounded := by
  refine (setup_selectInputSupport []).andDocument (n := 576) fun _ => ?_
  refine (setup_selectEf efInputSupportPin _).andDocument (n := 560) fun _ => ?_
  refine (setup_verifyPin pin _).andReads (n := 544) fun _ => ?_
  refine Reads.andThen (m := 272) (n := 272) (reads_ef _) fun attributes ha => ?_
  refine Reads.andThen (m := 272) (n := 0) (reads_ef _) fun signature hs => ?_
  refine Reads.andThen (m := 0) (n := 0) reads_parse fun preview _ => ?_
  exact reads_pure ⟨ha, hs, Nat.zero_le _, Nat.zero_le _⟩

theorem document_drivingLicense (pin : String) (pin2 : Option String) :
    Document [] (wanted .drivingLicense pin pin2) 1216 (readDrivingLicense pin pin2) fun read => read.2.Bounded := by
  obtain ⟨last, hsetup⟩ := setup_verifyLicensePins pin pin2
  refine hsetup.andReads (n := 1120) fun _ => ?_
  refine Reads.andThen (m := 1120) (n := 0) (reads_licenseEvidence pin2) fun evidence he => ?_
  refine Reads.andThen (m := 0) (n := 0) reads_parse fun preview _ => ?_
  exact reads_pure he

/-- What a conversation of a reader with a card may be: the PINs of `pins` are verified in their order, each at most once and
behind its own file, while nothing has failed; without well-formed PINs nothing is sent. -/
structure OneShot (pins : List (Bytes × Bytes)) (valid : Prop) (n : Nat) (t : Steps) : Prop where
  verified : attempts [] t <+: pins
  once : (attempts [] t).Nodup
  clean : Clean t
  valid : t ≠ [] → valid
  bounded : t.length ≤ n

omit [Parsers] in
theorem oneShot_nil (pins : List (Bytes × Bytes)) (valid : Prop) (n : Nat) : OneShot pins valid n [] :=
  ⟨List.nil_prefix, List.nodup_nil, (clean_of_none fun _ h => by cases h), fun h => absurd rfl h, Nat.zero_le _⟩

omit [Parsers] in
theorem Fits.oneShot {pins : List (Bytes × Bytes)} {n : Nat} {t : Steps} (h : Fits [] pins n t) (hn : pins.Nodup) {valid : Prop}
    (hv : valid) : OneShot pins valid n t :=
  ⟨h.verified, hn.sublist h.verified.sublist, h.clean, fun _ => hv, h.bounded⟩

theorem readDocument_oneShot {kind : DocumentType} {pin : String} {pin2 : Option String} {t : Steps}
    {r : Except CardFailure (CardPreview × Evidence)} (h : Traces (readDocument kind pin pin2).run t r) :
    OneShot (wanted kind pin pin2) (validPin pin = true ∧ ∀ p ∈ pin2, validPin p = true) 1216 t ∧
      ∀ read, r = .ok read → read.2.Bounded := by
  have hn := wanted_nodup kind pin pin2
  unfold readDocument at h
  by_cases hp : kind = .passport
  · rw [if_pos hp] at h
    obtain ⟨rfl, rfl⟩ := traces_throw h
    exact ⟨oneShot_nil _ _ _, fun _ h => by cases h⟩
  · rw [if_neg hp] at h
    rcases validated_pins h with ⟨rfl, e, rfl⟩ | ⟨hv, h⟩
    · exact ⟨oneShot_nil _ _ _, fun _ h => by cases h⟩
    · cases kind with
      | passport => exact absurd rfl hp
      | myNumberCard =>
        obtain ⟨hf, hr⟩ := document_myNumberCard pin pin2 t r h
        have hone := hf.oneShot hn hv
        exact ⟨⟨hone.verified, hone.once, hone.clean, hone.valid, hone.bounded.trans (by decide)⟩, hr⟩
      | drivingLicense =>
        obtain ⟨hf, hr⟩ := document_drivingLicense pin pin2 t r h
        exact ⟨hf.oneShot hn hv, hr⟩

theorem readMnc_oneShot {pin : String} {t : Steps} {r : Except CardFailure CardPreview} (h : Traces (readMnc pin).run t r) :
    OneShot (wanted .myNumberCard pin none) (validPin pin = true) 320 t := by
  rcases validated h with ⟨rfl, e, rfl⟩ | ⟨hv, h⟩
  · exact oneShot_nil _ _ _
  · rcases h.andThen with ⟨e, rfl, hx⟩ | ⟨before, after, raw, rfl, hx, hk⟩
    · exact (document_attributes pin t _ hx).1.oneShot (wanted_nodup _ _ _) hv
    · obtain ⟨rfl, -⟩ := hk
      rw [List.append_nil]
      exact (document_attributes pin before _ hx).1.oneShot (wanted_nodup _ _ _) hv

/-- Against every transport a reading of a document sends each PIN at most once and behind its own file, none after a step
that has failed and none unless the PINs are well formed; it ends within 1216 commands, a file within 272, and no file is
longer than the longest elementary file. -/
theorem card_reading (transport : Steps → Bytes → Except CardFailure Bytes) :
    (∀ kind pin pin2,
      OneShot (wanted kind pin pin2) (validPin pin = true ∧ ∀ p ∈ pin2, validPin p = true) 1216
          (converse transport [] (readDocument kind pin pin2).run).1 ∧
        ∀ read, (converse transport [] (readDocument kind pin pin2).run).2 = .ok read → read.2.Bounded) ∧
    (∀ pin, OneShot (wanted .myNumberCard pin none) (validPin pin = true) 320 (converse transport [] (readMnc pin).run).1) ∧
    ∀ ef, (converse transport [] (readEf ef).run).1.length ≤ 272 ∧
      (∀ s ∈ (converse transport [] (readEf ef).run).1, isVerify s.1 = false) ∧
      ∀ file, (converse transport [] (readEf ef).run).2 = .ok file → file.length ≤ maxEf := by
  refine ⟨fun kind pin pin2 => ?_, fun pin => ?_, fun ef => ?_⟩
  · exact readDocument_oneShot (converse_traces transport _ [])
  · exact readMnc_oneShot (converse_traces transport _ [])
  · exact reads_ef ef _ _ (converse_traces transport _ [])

end

/-- A licence whose two PINs are equal: the same bytes are sent twice, each time behind another file. -/
theorem card_reading_equal_pins :
    ¬∀ (_ : Parsers) (transport : Steps → Bytes → Except CardFailure Bytes) kind pin pin2 command, isVerify command = true →
      (((converse transport [] (readDocument kind pin pin2).run).1.map Prod.fst).filter (· = command)).length ≤ 1 := by
  intro h
  have hone := h ⟨fun _ => .error FailureCode.invalidData.failure, fun _ => .error FailureCode.invalidData.failure⟩
    (fun seen _ => if seen.length < 6 then .ok [0x90, 0] else .error FailureCode.cardRemoved.failure)
    .drivingLicense "1234" (some "1234") (verifyCommand "1234") (by decide)
  revert hone
  decide +kernel

end Mikaki.Identity.Card
