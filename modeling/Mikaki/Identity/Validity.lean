import Mikaki.Lib.Checks
import Mikaki.Lib.Text

/-!
# The validity of an issuance

`new` fixes the instant of an evaluation, `roundedMinutes` moves the start of
the interval back to a whole minute and `limit` its end forward to a deadline.
-/

namespace Mikaki.Identity

open Checks

inductive DocumentType where
  | myNumberCard
  | drivingLicense
  | passport
  deriving DecidableEq

/-! ## Dates -/

def isAsciiDigit (b : UInt8) : Bool := 48 ≤ b && b ≤ 57

def parseDigits (bs : List UInt8) : Nat := bs.foldl (fun n b => n * 10 + (b.toNat - 48)) 0

def daysIn (year month : Nat) : Nat :=
  let leap := year % 4 = 0 ∧ (year % 100 ≠ 0 ∨ year % 400 = 0)
  if month = 2 then (if leap then 29 else 28) else if month ∈ [4, 6, 9, 11] then 30 else 31

/-- `YYYY-MM-DD`: its year, month and day. -/
def splitDate (date : String) : Nat × Nat × Nat :=
  let bs := Text.bytes date
  (parseDigits (bs.take 4), parseDigits ((bs.drop 5).take 2), parseDigits (bs.drop 8))

def validDate (date : String) : Prop :=
  let bs := Text.bytes date
  let (year, month, day) := splitDate date
  bs.length = 10 ∧ (∀ i < 10, i ≠ 4 → i ≠ 7 → (bs[i]?.any isAsciiDigit) = true) ∧ bs[4]? = some 45 ∧ bs[7]? = some 45 ∧
    year ≠ 0 ∧ 1 ≤ month ∧ month ≤ 12 ∧ 1 ≤ day ∧ day ≤ daysIn year month

instance : DecidablePred validDate := fun date => by
  unfold validDate
  infer_instance

/-- The second at which the day is over. -/
def dateEnd (date : String) : Option Nat :=
  if validDate date then
    let (year, month, day) := splitDate date
    let y : Int := if month ≤ 2 then (year : Int) - 1 else year
    let era := y / 400
    let yo := y - era * 400
    let mp : Int := if month > 2 then (month : Int) - 3 else month + 9
    let days := era * 146097 + yo * 365 + yo / 4 - yo / 100 + (153 * mp + 2) / 5 + day - 1 - 719468
    if 0 ≤ (days + 1) * 86400 then some ((days + 1) * 86400).toNat else none
  else none

example : dateEnd "1970-01-01" = some 86400 := by decide +kernel

/-! ## Validity -/

/-- What an issuance reads of a verified document. -/
structure VerifiedDocument where
  documentType : DocumentType
  expiryDate : Option String
  deriving DecidableEq

/-- Upper bounds are exclusive. -/
structure Validity where
  issuedAt : Nat
  expiresAt : Nat
  evaluatedAt : Nat
  deriving DecidableEq

/-- `u64::checked_add`. -/
def checkedAdd (a b : Nat) : Except String Nat := if a + b < 2 ^ 64 then .ok (a + b) else .error "invalid_validity"

/-- The end of the evidence, for documents that have one. -/
def VerifiedDocument.limits (self : VerifiedDocument) (expiresAt : Nat) : Except String Nat :=
  match self.expiryDate with
  | some date =>
    match dateEnd date with
    | some e => .ok (min expiresAt e)
    | none => .error "invalid_validity"
  | none => if self.documentType = .drivingLicense then .error "invalid_validity" else .ok expiresAt

namespace Validity

def new (document : VerifiedDocument) (now deadline : Nat) : Except String Validity := do
  denyIf (document.documentType = .passport) "unsupported_document_type"
  let lifetime ← checkedAdd now 300
  let expiresAt ← document.limits (min lifetime deadline)
  denyIf (expiresAt ≤ now) "invalid_validity"
  return { issuedAt := now, expiresAt, evaluatedAt := now }

/-- A validity with less than one interval of the grid left is refused. -/
def roundedMinutes (self : Validity) (notBefore : Nat) : Except String Validity := do
  let issuedAt := max (self.issuedAt / 60 * 60) notBefore
  denyIf (issuedAt > self.issuedAt) "invalid_validity"
  let lifetime ← checkedAdd issuedAt 300
  let expiresAt := min (self.expiresAt / 60 * 60) lifetime
  denyIf (expiresAt ≤ self.issuedAt) "invalid_validity"
  return { issuedAt, expiresAt, evaluatedAt := self.evaluatedAt }

def limit (self : Validity) (document : VerifiedDocument) (deadline : Nat) : Except String Validity := do
  let bounded ← new document self.issuedAt (min self.expiresAt deadline)
  return { bounded with evaluatedAt := self.evaluatedAt }

end Validity

/-! ## Any sequence -/

inductive Op where
  | roundedMinutes (notBefore : Nat)
  | limit (document : VerifiedDocument) (deadline : Nat)
  deriving DecidableEq

def Op.apply (v : Validity) : Op → Except String Validity
  | roundedMinutes notBefore => v.roundedMinutes notBefore
  | limit document deadline => v.limit document deadline

/-- An end that is no later than the evidence of a document. -/
def VerifiedDocument.covers (self : VerifiedDocument) (t : Nat) : Prop := ∀ e ∈ self.expiryDate.bind dateEnd, t ≤ e

/-- The document's evidence goes on after an instant. -/
def VerifiedDocument.outlasts (self : VerifiedDocument) (t : Nat) : Prop := ∀ e ∈ self.expiryDate.bind dateEnd, t < e

variable {v v' : Validity} {document : VerifiedDocument} {now deadline : Nat}

theorem checkedAdd_eq_ok {a b c : Nat} : checkedAdd a b = .ok c ↔ a + b < 2 ^ 64 ∧ a + b = c := by
  unfold checkedAdd
  by_cases h : a + b < 2 ^ 64
  · rw [if_pos h, Except.ok.injEq]
    exact ⟨fun hc => ⟨h, hc⟩, And.right⟩
  · rw [if_neg h]
    exact ⟨(fun hc => by cases hc), fun hc => absurd hc.1 h⟩

/-- The end is cut where the evidence ends, and only there. -/
theorem VerifiedDocument.limits_ok {t r : Nat} (h : document.limits t = .ok r) :
    r ≤ t ∧ document.covers r ∧ ∀ n, n < t → document.outlasts n → n < r := by
  unfold VerifiedDocument.limits at h
  unfold VerifiedDocument.covers VerifiedDocument.outlasts
  cases hd : document.expiryDate with
  | none =>
    rw [hd] at h
    dsimp only at h
    split at h
    · cases h
    · cases h
      exact ⟨Nat.le_refl _, (fun e he => by cases he), fun n hn _ => hn⟩
  | some date =>
    rw [hd] at h
    dsimp only at h
    cases he : dateEnd date with
    | none =>
      rw [he] at h
      cases h
    | some e =>
      rw [he] at h
      cases h
      simp only [Option.bind_some, he, Option.mem_some_iff, forall_eq']
      exact ⟨Nat.min_le_left _ _, Nat.min_le_right _ _, fun n hn hlt => lt_min hn hlt⟩

theorem Validity.new_ok (h : Validity.new document now deadline = .ok v) :
    v.issuedAt = now ∧ v.evaluatedAt = now ∧ now < v.expiresAt ∧ v.expiresAt ≤ now + 300 ∧ v.expiresAt ≤ deadline ∧
      document.covers v.expiresAt ∧ ∀ n, n < min (now + 300) deadline → document.outlasts n → n < v.expiresAt := by
  simp only [new, bind_eq_ok, exists_unit, denyIf_eq_ok, pure_eq_ok, checkedAdd_eq_ok] at h
  obtain ⟨-, lifetime, ⟨-, rfl⟩, expiresAt, hlimits, hlate, rfl⟩ := h
  obtain ⟨hle, hcovers, honly⟩ := VerifiedDocument.limits_ok hlimits
  dsimp only
  exact ⟨rfl, rfl, Nat.lt_of_not_le hlate, by omega, by omega, hcovers, honly⟩

theorem Validity.roundedMinutes_ok {notBefore : Nat} (h : v.roundedMinutes notBefore = .ok v') :
    v'.evaluatedAt = v.evaluatedAt ∧ v'.issuedAt ≤ v.issuedAt ∧ v.issuedAt / 60 * 60 ≤ v'.issuedAt ∧ v.issuedAt < v'.expiresAt ∧
      v'.expiresAt = min (v.expiresAt / 60 * 60) (v'.issuedAt + 300) := by
  simp only [roundedMinutes, bind_eq_ok, exists_unit, denyIf_eq_ok, pure_eq_ok, checkedAdd_eq_ok] at h
  obtain ⟨hback, lifetime, ⟨-, rfl⟩, hlate, rfl⟩ := h
  dsimp only
  exact ⟨rfl, by omega, Nat.le_max_left _ _, by omega, rfl⟩

theorem Validity.limit_ok (h : v.limit document deadline = .ok v') :
    v'.issuedAt = v.issuedAt ∧ v'.evaluatedAt = v.evaluatedAt ∧ v.issuedAt < v'.expiresAt ∧ v'.expiresAt ≤ v.issuedAt + 300 ∧
      v'.expiresAt ≤ v.expiresAt ∧ v'.expiresAt ≤ deadline ∧ document.covers v'.expiresAt ∧
      ∀ n, n < min (v.issuedAt + 300) (min v.expiresAt deadline) → document.outlasts n → n < v'.expiresAt := by
  simp only [limit, bind_eq_ok, pure_eq_ok] at h
  obtain ⟨bounded, hnew, rfl⟩ := h
  obtain ⟨hissued, -, hlate, hlife, hdeadline, hcovers, honly⟩ := Validity.new_ok hnew
  dsimp only
  exact ⟨hissued, rfl, hlate, hlife, by omega, by omega, hcovers, honly⟩

/-- The start is in the minute of the evaluation, and the end is in the longest lifetime. -/
structure Validity.Sound (v : Validity) : Prop where
  started : v.issuedAt ≤ v.evaluatedAt
  minute : v.evaluatedAt / 60 * 60 ≤ v.issuedAt
  open_ : v.issuedAt < v.expiresAt
  lifetime : v.expiresAt ≤ v.issuedAt + 300

theorem VerifiedDocument.covers.le {t r : Nat} (h : document.covers t) (hr : r ≤ t) : document.covers r :=
  fun e he => Nat.le_trans hr (h e he)

/-- The deadline of a limit, and the end of its document, are not passed by an end. -/
def Op.covers (t : Nat) : Op → Prop
  | roundedMinutes _ => True
  | limit document deadline => t ≤ deadline ∧ document.covers t

/-- The deadline of a limit, and the end of its document, are after an instant. -/
def Op.outlasts (t : Nat) : Op → Prop
  | roundedMinutes _ => True
  | limit document deadline => t < deadline ∧ document.outlasts t

theorem Op.covers.le {op : Op} {t r : Nat} (h : op.covers t) (hr : r ≤ t) : op.covers r := by
  cases op with
  | roundedMinutes notBefore => trivial
  | limit document deadline => exact ⟨Nat.le_trans hr h.1, h.2.le hr⟩

theorem Op.apply_sound {op : Op} (hv : v.Sound) (h : op.apply v = .ok v') :
    v'.Sound ∧ v'.evaluatedAt = v.evaluatedAt ∧ v'.expiresAt ≤ v.expiresAt ∧ op.covers v'.expiresAt := by
  obtain ⟨h1, h2, h3, h4⟩ := hv
  cases op with
  | roundedMinutes notBefore =>
    obtain ⟨he, hle, hge, hlt, hx⟩ := Validity.roundedMinutes_ok h
    refine ⟨⟨?_, ?_, ?_, ?_⟩, he, ?_, trivial⟩
    all_goals omega
  | limit document deadline =>
    obtain ⟨hi, he, hlt, hlife, hx, hd, hcovers, -⟩ := Validity.limit_ok h
    refine ⟨⟨?_, ?_, ?_, ?_⟩, he, hx, hd, hcovers⟩
    all_goals omega

/-- An operation keeps the end after the evaluation exactly where what it is given is. -/
theorem Op.apply_open {op : Op} (hv : v.Sound) (hlt : v.evaluatedAt < v.expiresAt) (h : op.apply v = .ok v') :
    v'.evaluatedAt < v'.expiresAt ↔ op.outlasts v.evaluatedAt := by
  obtain ⟨h1, h2, h3, h4⟩ := hv
  cases op with
  | roundedMinutes notBefore =>
    obtain ⟨he, hle, hge, hlate, hx⟩ := Validity.roundedMinutes_ok h
    refine ⟨fun _ => trivial, fun _ => ?_⟩
    omega
  | limit document deadline =>
    obtain ⟨hi, he, hlate, hlife, hx, hd, hcovers, honly⟩ := Validity.limit_ok h
    refine ⟨fun hopen => ⟨by omega, fun e hm => ?_⟩, fun hout => ?_⟩
    · have hle := hcovers e hm
      omega
    · rw [he]
      exact honly _ (by have := hout.1; omega) hout.2

theorem run_sound {ops : List Op} (hv : v.Sound) (h : ops.foldlM Op.apply v = .ok v') :
    v'.Sound ∧ v'.evaluatedAt = v.evaluatedAt ∧ v'.expiresAt ≤ v.expiresAt ∧ ∀ op ∈ ops, op.covers v'.expiresAt := by
  induction ops generalizing v with
  | nil =>
    cases h
    exact ⟨hv, rfl, Nat.le_refl _, fun op hop => by cases hop⟩
  | cons op ops ih =>
    rw [List.foldlM_cons, bind_eq_ok] at h
    obtain ⟨w, hw, h⟩ := h
    obtain ⟨hsound, heval, hle, hcovers⟩ := Op.apply_sound hv hw
    obtain ⟨hsound', heval', hle', hall⟩ := ih hsound h
    refine ⟨hsound', heval'.trans heval, Nat.le_trans hle' hle, fun o ho => ?_⟩
    rcases List.mem_cons.mp ho with rfl | ho
    · exact hcovers.le hle'
    · exact hall o ho

theorem run_open {ops : List Op} (hv : v.Sound) (hlt : v.evaluatedAt < v.expiresAt) (h : ops.foldlM Op.apply v = .ok v') :
    v'.evaluatedAt < v'.expiresAt ↔ ∀ op ∈ ops, op.outlasts v.evaluatedAt := by
  induction ops generalizing v with
  | nil =>
    cases h
    exact ⟨(fun _ op hop => by cases hop), fun _ => hlt⟩
  | cons op ops ih =>
    rw [List.foldlM_cons, bind_eq_ok] at h
    obtain ⟨w, hw, h⟩ := h
    have hopen := Op.apply_open hv hlt hw
    obtain ⟨hsound, heval, -, -⟩ := Op.apply_sound hv hw
    rw [List.forall_mem_cons, ← hopen]
    by_cases hw' : w.evaluatedAt < w.expiresAt
    · rw [ih hsound hw' h, heval]
      exact ⟨fun hrest => ⟨heval ▸ hw', hrest⟩, And.right⟩
    · -- The end never moves back up.
      obtain ⟨-, heval', hle, -⟩ := run_sound hsound h
      exact ⟨fun hend => absurd (by omega) hw', fun hend => absurd hend.1 hw'⟩

/-- An issuance ends after its evaluation exactly where every deadline and every document that it was limited to does. -/
theorem validity_interval {ops : List Op} (hnew : Validity.new document now deadline = .ok v) (h : ops.foldlM Op.apply v = .ok v') :
    (v'.issuedAt ≤ v'.evaluatedAt ∧ v'.evaluatedAt < v'.expiresAt ∧ v'.expiresAt ≤ v'.issuedAt + 300 ∧
      v'.expiresAt ≤ deadline ∧ document.covers v'.expiresAt ∧ ∀ op ∈ ops, op.covers v'.expiresAt) ↔
    ∀ op ∈ ops, op.outlasts now := by
  obtain ⟨hissued, heval, hlt, hlife, hdeadline, hcovers, -⟩ := Validity.new_ok hnew
  have hsound : v.Sound := ⟨by omega, by omega, by omega, by omega⟩
  obtain ⟨hsound', -, hle, hall⟩ := run_sound hsound h
  have hopen := run_open hsound (by omega) h
  rw [heval] at hopen
  constructor
  · intro ⟨_, hend, _⟩
    exact hopen.mp hend
  · intro hout
    exact ⟨hsound'.started, hopen.mpr hout, hsound'.lifetime, Nat.le_trans hle hdeadline, hcovers.le hle, hall⟩

/-! ## A deadline in the minute of the evaluation -/

def Sample.card : VerifiedDocument := ⟨.myNumberCard, none⟩

theorem validity_interval_rounded :
    Validity.new Sample.card 119 (2 ^ 64 - 1) = .ok ⟨119, 419, 119⟩ ∧
    [Op.roundedMinutes 0, .limit Sample.card 300].foldlM Op.apply ⟨119, 419, 119⟩ = .ok ⟨60, 300, 119⟩ ∧
    (60 ≤ 119 ∧ 119 < 300 ∧ 300 ≤ 60 + 300 ∧ 300 ≤ 2 ^ 64 - 1 ∧ Sample.card.covers 300 ∧
      ∀ op ∈ [Op.roundedMinutes 0, .limit Sample.card 300], op.covers 300) := by
  have hnew : Validity.new Sample.card 119 (2 ^ 64 - 1) = .ok ⟨119, 419, 119⟩ := by decide +kernel
  have hrun : [Op.roundedMinutes 0, .limit Sample.card 300].foldlM Op.apply ⟨119, 419, 119⟩ = .ok ⟨60, 300, 119⟩ := by
    decide +kernel
  refine ⟨hnew, hrun, (validity_interval hnew hrun).mpr fun op hop => ?_⟩
  simp only [List.mem_cons, List.not_mem_nil, or_false] at hop
  rcases hop with rfl | rfl
  · trivial
  · exact ⟨by decide, fun e he => by cases he⟩

/-- A deadline between the whole minute and the evaluation: the issuance has expired when it is evaluated. -/
theorem validity_interval_expired : ∃ (document : VerifiedDocument) (now deadline : Nat) (v v' : Validity) (ops : List Op),
    Validity.new document now deadline = .ok v ∧ ops.foldlM Op.apply v = .ok v' ∧ ¬v'.evaluatedAt < v'.expiresAt :=
  ⟨Sample.card, 119, 2 ^ 64 - 1, ⟨119, 419, 119⟩, ⟨60, 100, 119⟩, [.roundedMinutes 0, .limit Sample.card 100],
    by decide +kernel, by decide +kernel, by decide⟩

end Mikaki.Identity
