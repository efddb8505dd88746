import Mikaki.Identity.TrustDeadlines

/-!
# Deadlines of passport evidence

Evidence is trusted until the first end of its certificate, its anchor, the
revocation list and the list's signer; and what a policy reports covers each
anchor that is valid, with a list.
-/

namespace Mikaki.Identity.TrustDeadlines

open Checks X509 Lasting
open Wallet (PublicJwk orElse orElse_eq_ok)
open Certificate (CrlPolicy ReaderTrust mapError fold checkCertificateForPurpose checkCertificate crlDeadline)

open Passport

/-- Whatever the refusals of a check are, they are of `P`. -/
def Refuses {ε α : Type} (x : Except ε α) (P : ε → Prop) : Prop := ∀ e, x = .error e → P e

section
variable {ε ε' α β : Type} {P : ε → Prop}

theorem Refuses.ok (a : α) : Refuses (.ok a : Except ε α) P := fun _ h => by cases h

theorem Refuses.bind {x : Except ε α} {f : α → Except ε β} (hx : Refuses x P) (hf : ∀ a, Refuses (f a) P) : Refuses (x >>= f) P := by
  intro e h
  cases x with
  | error e' =>
    cases h
    exact hx e rfl
  | ok a => exact hf a e h

theorem Refuses.denyIf {c : Prop} [Decidable c] {e : ε} (h : c → P e) : Refuses (denyIf c e) P := by
  intro e' he
  unfold Checks.denyIf at he
  split at he
  · rename_i hc
    cases he
    exact h hc
  · cases he

theorem Refuses.step {c : Prop} [Decidable c] {e : ε} {x : Except ε α} (h : c → P e) (hx : ¬c → Refuses x P) :
    Refuses (Checks.denyIf c e >>= fun _ => x) P := by
  by_cases hc : c
  · rw [Checks.denyIf, if_pos hc]
    intro e' he
    cases he
    exact h hc
  · rw [Checks.denyIf, if_neg hc]
    exact hx hc

theorem Refuses.orElse {P : String → Prop} {e : String} {o : Option α} (h : P e) : Refuses (Wallet.orElse e o) P := by
  intro e' he
  cases o with
  | none =>
    cases he
    exact h
  | some a => cases he

theorem Refuses.mapError {f : ε' → ε} {x : Except ε' α} (h : ∀ e, P (f e)) : Refuses (Certificate.mapError f x) P := by
  intro e he
  cases x with
  | error e' =>
    cases he
    exact h e'
  | ok a => cases he

end

section
variable {k : List Nat} {t u : Nat}

theorem deadline_eq_ok {cert : X509.Certificate} {d : Nat} :
    deadline cert u = .ok d ↔ cert.notBefore < cert.notAfter ∧ (cert.notBefore ≤ u ∧ u < cert.notAfter) ∧ d = cert.notAfter := by
  unfold deadline checkTrue
  simp only [check_bind_eq_ok, denyIf_eq_ok, pure_eq_ok, Nat.not_lt, ge_iff_le, Nat.not_le]
  constructor
  · rintro ⟨h, hs, he, rfl⟩
    exact ⟨h, ⟨hs, he⟩, rfl⟩
  · rintro ⟨h, ⟨hs, he⟩, rfl⟩
    exact ⟨h, hs, he, rfl⟩

theorem lasts_passport_deadline (cert : X509.Certificate) : Lasts k (fun u => deadline cert u) t fun d l => d = cert.notAfter ∧ l = [cert.notAfter] := by
  refine Lasts.weaken (Lasts.window (W := fun d s e => cert.notBefore < cert.notAfter ∧ d = cert.notAfter ∧ s = cert.notBefore ∧ e = cert.notAfter)
    (fun u d => ?_) ?_) ?_
  · rw [deadline_eq_ok]
    constructor
    · rintro ⟨h, hw, hd⟩
      exact ⟨_, _, ⟨h, hd, rfl, rfl⟩, hw⟩
    · rintro ⟨s, e, ⟨h, hd, rfl, rfl⟩, hw⟩
      exact ⟨h, hw, hd⟩
  · rintro d s e d' s' e' ⟨-, -, -, rfl⟩ ⟨-, -, -, rfl⟩
    rfl
  · rintro d l - ⟨s, e, ⟨-, hd, -, rfl⟩, -, hl⟩
    exact ⟨hd, hl⟩

/-- A refusal that is no state of a list. -/
def NoState (reason : String) : Prop := reason ≠ "good" ∧ reason ≠ "revoked"

theorem noState_invalid : NoState "invalid" := ⟨by decide, by decide⟩

theorem noState_unsupported : NoState "unsupported" := ⟨by decide, by decide⟩

variable [Der] [Signed]

/-- The window of a list and its signer. -/
structure CurrentCrl (issuer : Name) (roots : List X509.Certificate) (bytes : List Bytes) (r : CertificateList × Nat) (s e : Nat)
    (signer : X509.Certificate) (n : Nat) : Prop where
  found : crlOf issuer roots bytes = .ok (r.1, signer)
  valid : signer.notBefore < signer.notAfter
  signed : ∃ signature tbs, r.1.signatureBytes = some signature ∧ r.1.tbs = some tbs ∧
    Signed.verifySigned signer r.1.signatureAlgorithm signature tbs = .ok ()
  nextUpdate : r.1.nextUpdate = some n ∧ r.1.thisUpdate < n
  entries : (r.1.revokedCertificates.getD []).length ≤ 2048 ∧ checkEntries r.1.thisUpdate [] (r.1.revokedCertificates.getD []) = .ok ()
  start : s = max signer.notBefore r.1.thisUpdate
  deadline : e = min (min n (saturatingAdd r.1.thisUpdate maxAge)) signer.notAfter
  result : r.2 = e

theorem currentCrl_eq_ok {issuer : Name} {roots : List X509.Certificate} {bytes : List Bytes} {r : CertificateList × Nat} :
    currentCrl issuer roots bytes u = .ok r ↔ ∃ s e, (∃ signer n, CurrentCrl issuer roots bytes r s e signer n) ∧ s ≤ u ∧ u < e := by
  unfold currentCrl crlWindow
  simp only [bind_eq_ok, exists_unit, denyIf_eq_ok, orElse_eq_ok, pure_eq_ok, mapError_eq_ok, deadline_eq_ok, Prod.exists, not_or, Nat.not_le,
    Nat.not_lt, ge_iff_le, gt_iff_lt]
  constructor
  · rintro ⟨crl, signer, hfound, d, ⟨hsigner, ⟨hs, he⟩, rfl⟩, signature, hsig, tbs, htbs, hsigned, end_, ⟨n, hn, hlt, hstart, ⟨hnext, hage⟩, rfl⟩, hlen,
      hentries, rfl⟩
    exact ⟨_, _, ⟨signer, n, hfound, hsigner, ⟨_, _, hsig, htbs, hsigned⟩, ⟨hn, hlt⟩, ⟨hlen, hentries⟩, rfl, rfl, rfl⟩, max_le hs hstart,
      lt_min (lt_min hnext hage) he⟩
  · rintro ⟨s, e, ⟨signer, n, h⟩, hs, he⟩
    obtain ⟨signature, tbs, hsig, htbs, hsigned⟩ := h.signed
    rw [h.start] at hs
    rw [h.deadline] at he
    obtain ⟨hs, hstart⟩ := max_le_iff.mp hs
    obtain ⟨hbefore, he⟩ := lt_min_iff.mp he
    obtain ⟨hnext, hage⟩ := lt_min_iff.mp hbefore
    refine ⟨r.1, signer, h.found, _, ⟨h.valid, ⟨hs, he⟩, rfl⟩, signature, hsig, tbs, htbs, hsigned, _,
      ⟨n, h.nextUpdate.1, h.nextUpdate.2, hstart, ⟨hnext, hage⟩, rfl⟩, h.entries.1, h.entries.2, ?_⟩
    rw [← h.deadline, ← h.result]

theorem lasts_currentCrl (issuer : Name) (roots : List X509.Certificate) (bytes : List Bytes) :
    Lasts k (fun u => currentCrl issuer roots bytes u) t fun r l => l = [r.2] := by
  refine Lasts.weaken (Lasts.window (fun u r => currentCrl_eq_ok) ?_) ?_
  · rintro r s e r' s' e' ⟨signer, n, h⟩ ⟨signer', n', h'⟩
    obtain ⟨hcrl, hsame⟩ := Prod.mk.inj (Except.ok.inj (h.found.symm.trans h'.found))
    have hn := h.nextUpdate.1
    rw [hcrl, h'.nextUpdate.1] at hn
    rw [h.deadline, h'.deadline, hcrl, hsame, Option.some.inj hn]
  · rintro r l - ⟨s, e, ⟨signer, n, h⟩, -, rfl⟩
    rw [h.result]

theorem lasts_revocation (cert root : X509.Certificate) (roots : List X509.Certificate) (bytes : List Bytes) :
    Lasts k (fun u => revocation cert root roots bytes u) t fun r l => l = [r.2] := by
  refine (lasts_currentCrl cert.issuer roots bytes).then fun r l r' hl hr => ?_
  cases hr
  exact hl

/-! ### Why a list is refused -/

omit [Signed] in
theorem refuses_selectCrl (issuer : Name) (selected : Option CertificateList) (bytes : List Bytes) :
    Refuses (selectCrl issuer selected bytes) NoState := by
  induction bytes generalizing selected with
  | nil => exact .ok _
  | cons b rest ih =>
    refine .bind (.denyIf fun _ => noState_invalid) fun _ => .bind (.orElse noState_invalid) fun crl => .bind (.orElse noState_invalid) fun der => ?_
    refine .bind (.denyIf fun _ => noState_invalid) fun _ => ?_
    split
    · exact .bind (.denyIf fun _ => noState_invalid) fun _ => ih _
    · exact ih _

omit [Signed] in
theorem refuses_crlExtensions (ids : List String) (aki : Option Bytes) (number : Bool) (es : List Extension) :
    Refuses (crlExtensions ids aki number es) NoState := by
  induction es generalizing ids aki number with
  | nil => exact .ok _
  | cons e es ih =>
    refine .bind (.denyIf fun _ => noState_invalid) fun _ => ?_
    split
    · exact .bind (.mapError fun _ => noState_invalid) fun _ => ih _ _ _
    · exact .bind (.orElse noState_invalid) fun _ => .bind (.denyIf fun _ => noState_invalid) fun _ => ih _ _ _
    · exact fun e h => by cases h; exact noState_unsupported
    · exact fun e h => by cases h; exact noState_unsupported
    · exact fun e h => by cases h; exact noState_unsupported
    · exact ih _ _ _

omit [Signed] in
theorem refuses_selectSigner (issuer : Name) (aki : Bytes) (signer : Option X509.Certificate) (roots : List X509.Certificate) :
    Refuses (selectSigner issuer aki signer roots) NoState := by
  induction roots generalizing signer with
  | nil => exact .ok _
  | cons ca rest ih =>
    unfold selectSigner
    split
    · refine .bind (.mapError fun _ => noState_invalid) fun p => ?_
      split
      · exact .bind (.denyIf fun _ => noState_invalid) fun _ => ih _
      · exact ih _
    · exact ih _

omit [Signed] in
theorem refuses_checkEntries (start : Nat) (serials : List Bytes) (entries : List RevokedCertificate) :
    Refuses (checkEntries start serials entries) NoState := by
  have hextension : ∀ ids e, Refuses (checkEntryExtension ids e) NoState := by
    intro ids e
    unfold checkEntryExtension
    refine .bind (.denyIf fun _ => noState_unsupported) fun _ => ?_
    split
    · exact .bind (.orElse noState_invalid) fun _ => .denyIf fun _ => noState_unsupported
    · exact .ok _
  have hextensions : ∀ es ids, Refuses (checkEntryExtensions ids es) NoState := by
    intro es
    induction es with
    | nil => exact fun ids => .ok _
    | cons e es ih => exact fun ids => .bind (hextension ids e) fun _ => ih _
  induction entries generalizing serials with
  | nil => exact .ok _
  | cons entry entries ih => exact .bind (.denyIf fun _ => noState_invalid) fun _ => .bind (hextensions _ _) fun _ => ih _

theorem refuses_revocation (cert root : X509.Certificate) (roots : List X509.Certificate) (bytes : List Bytes) (now : Nat) :
    Refuses (revocation cert root roots bytes now) NoState := by
  have hcrlOf : Refuses (crlOf cert.issuer roots bytes) NoState := by
    refine .bind (.denyIf fun _ => noState_invalid) fun _ => .bind (refuses_selectCrl _ _ _) fun _ => .bind (.orElse ⟨by decide, by decide⟩) fun crl => ?_
    refine .bind (.denyIf fun _ => noState_invalid) fun _ => .bind (refuses_crlExtensions _ _ _ _) fun _ => .bind (.orElse noState_invalid) fun aki => ?_
    exact .bind (.denyIf fun _ => noState_invalid) fun _ => .bind (refuses_selectSigner _ _ _ _) fun _ => .bind (.orElse noState_invalid) fun _ => .ok _
  have hwindow : ∀ crl, Refuses (crlWindow crl now) NoState := fun crl =>
    .bind (.orElse noState_invalid) fun _ => .bind (.denyIf fun _ => noState_invalid) fun _ => .bind (.denyIf fun _ => ⟨by decide, by decide⟩) fun _ =>
      .bind (.denyIf fun _ => ⟨by decide, by decide⟩) fun _ => .ok _
  have hcrlState : ∀ state, NoState (crlState state) := by
    intro state
    unfold crlState
    split
    · exact noState_unsupported
    · exact noState_invalid
  refine .bind (.bind hcrlOf fun r => .bind (.mapError fun _ => noState_invalid) fun _ => .bind (.orElse noState_invalid) fun _ => ?_) fun _ => .ok _
  refine .bind (.orElse noState_invalid) fun _ => .bind (.mapError hcrlState) fun _ => .bind (hwindow _) fun _ => ?_
  exact .bind (.denyIf fun _ => noState_unsupported) fun _ => .bind (refuses_checkEntries _ _ _) fun _ => .ok _

/-! ### Evidence -/

/-- `evaluate`, where only a list without the certificate will do. -/
def trusted (cert : X509.Certificate) (roots : List X509.Certificate) (crls : List Bytes) (now : Nat) : Except String Nat := do
  let root ← anchorOf cert roots
  let rootEnd ← deadline root now
  let certEnd ← deadline cert now
  checkSigned root cert.signatureAlgorithm cert.signatureBytes cert.tbs
  let (state, crlEnd) ← revocation cert root roots crls now
  denyIf (state ≠ "good") "revoked"
  return min (min rootEnd certEnd) crlEnd

theorem evaluate_good {cert : X509.Certificate} {roots : List X509.Certificate} {crls : List Bytes} {d : Nat} :
    evaluate cert roots crls u = .ok ("good", d) ↔ trusted cert roots crls u = .ok d := by
  unfold evaluate trusted
  simp only [bind_eq_ok, exists_unit, denyIf_eq_ok, pure_eq_ok, not_not, Prod.exists]
  refine exists_congr fun root => and_congr_right fun _ => exists_congr fun rootEnd => and_congr_right fun _ => exists_congr fun certEnd =>
    and_congr_right fun _ => and_congr_right fun _ => ?_
  cases hr : revocation cert root roots crls u with
  | ok r =>
    obtain ⟨state, crlEnd⟩ := r
    constructor
    · intro h
      cases h
      exact ⟨_, _, rfl, rfl, rfl⟩
    · rintro ⟨state', crlEnd', h, rfl, rfl⟩
      cases h
      rfl
  | error reason =>
    constructor
    · intro h
      cases h
      exact absurd rfl (refuses_revocation cert root roots crls u "good" hr).1
    · rintro ⟨_, _, h, -⟩
      cases h

theorem lasts_trusted (cert : X509.Certificate) (roots : List X509.Certificate) (crls : List Bytes) :
    Lasts k (fun u => trusted cert roots crls u) t fun d l => Least d l := by
  unfold trusted
  refine .step fun root _ => (lasts_passport_deadline root).bind fun rootEnd l₀ hroot => ?_
  obtain ⟨rfl, rfl⟩ := hroot
  refine (lasts_passport_deadline cert).bind fun certEnd l₁ hcert => ?_
  obtain ⟨rfl, rfl⟩ := hcert
  refine .step fun _ _ => (lasts_revocation cert root roots crls).bind fun r l₂ hl₂ => ?_
  obtain ⟨state, crlEnd⟩ := r
  subst hl₂
  refine .step fun _ _ => .const fun d hd => ?_
  cases hd
  exact least_of_foldl (l := [cert.notAfter, crlEnd]) rfl

variable [Pinned]

/-- The report of evidence whose certificate is trusted. -/
def trustedReport (d now : Nat) : Report :=
  { Report.new .consistent with issuerTrust := "csca_verified", revocation := "good", checkedAt := some now, validUntil := some d }

omit [Der] [Signed] [Pinned] in
theorem authorize_eq_ok {report : Report} {c : Option Dg1Claims} {v : VerifiedDg1} : authorize report c u = .ok v ↔
    (report.state = .consistent ∧ report.checkedDataGroups = [1] ∧ report.issuerTrust = "csca_verified" ∧ report.revocation = "good") ∧
      (report.checkedAt = some u ∧ ∃ d, report.validUntil = some d ∧ u < d) ∧ ∃ x, c = some x ∧ v = ⟨x, report⟩ := by
  have hlimit : ¬(report.validUntil.all fun d => decide (d ≤ u)) = true ↔ ∃ d, report.validUntil = some d ∧ u < d := by
    cases report.validUntil <;> simp
  unfold authorize
  simp only [check_bind_eq_ok, denyIf_eq_ok, not_or, not_not, ne_eq, hlimit]
  constructor
  · rintro ⟨-, hstate, hgroups, -, htrust, hat, -, hgood, h⟩
    cases c with
    | none => cases h
    | some x =>
      cases h
      exact ⟨⟨hstate, hgroups, htrust, hgood⟩, hat, x, rfl, rfl⟩
  · rintro ⟨⟨hstate, hgroups, htrust, hgood⟩, hat, x, rfl, rfl⟩
    rw [hstate, htrust, hgood]
    exact ⟨by decide, rfl, hgroups, ⟨by decide, by decide⟩, rfl, hat, by decide, rfl, rfl⟩

theorem verify_eq_ok {e : Evidence} {policy : Policy} {v : VerifiedDg1} : e.verify policy u = .ok v ↔
    ∃ c cert roots d, claims e.dg1 = some c ∧ Signed.verifyInner e.sod e.dg1 = .ok cert ∧ candidates (part e.dg1 7 10) = .ok roots ∧
      trusted cert roots policy.crls u = .ok d ∧ u < d ∧ v = ⟨c, trustedReport d u⟩ := by
  unfold Evidence.verify Evidence.inspect
  rw [authorize_eq_ok]
  cases hclaims : claims e.dg1 with
  | none => simp
  | some c =>
    cases hinner : Signed.verifyInner e.sod e.dg1 with
    | error state => simp [Report.new]
    | ok cert =>
      cases hroots : candidates (part e.dg1 7 10) with
      | error reason => simp [check, hroots, Report.new]
      | ok roots =>
        simp only [check, hroots, ok_bind, Except.ok.injEq, Option.some.injEq, exists_eq_left', exists_and_left]
        cases hev : evaluate cert roots policy.crls u with
        | error reason =>
          simp [Report.new, ← evaluate_good, hev]
        | ok r =>
          obtain ⟨state, d⟩ := r
          simp only [← evaluate_good, hev, Except.ok.injEq, Prod.mk.injEq]
          constructor
          · rintro ⟨⟨-, -, -, rfl⟩, ⟨-, d', hd, hlt⟩, rfl⟩
            cases hd
            exact ⟨d, ⟨rfl, rfl⟩, hlt, rfl⟩
          · rintro ⟨d', ⟨rfl, rfl⟩, hlt, rfl⟩
            exact ⟨⟨rfl, rfl, trivial, rfl⟩, ⟨trivial, d, rfl, hlt⟩, rfl⟩

theorem exact_evidence (e : Evidence) (policy : Policy) :
    Exact (fun now => (e.verify policy now).map VerifiedDg1.evidenceValidUntil) id := by
  have hiff : ∀ u d, (e.verify policy u).map VerifiedDg1.evidenceValidUntil = .ok d ↔ ∃ c cert roots, claims e.dg1 = some c ∧
      Signed.verifyInner e.sod e.dg1 = .ok cert ∧ candidates (part e.dg1 7 10) = .ok roots ∧ trusted cert roots policy.crls u = .ok d ∧ u < d := by
    intro u d
    constructor
    · intro h
      cases hv : e.verify policy u with
      | error r =>
        rw [hv] at h
        cases h
      | ok v =>
        rw [hv] at h
        obtain ⟨c, cert, roots, d', hc, hcert, hroots, htrusted, hlt, rfl⟩ := verify_eq_ok.mp hv
        cases h
        exact ⟨c, cert, roots, hc, hcert, hroots, htrusted, hlt⟩
    · rintro ⟨c, cert, roots, hc, hcert, hroots, htrusted, hlt⟩
      rw [verify_eq_ok.mpr ⟨c, cert, roots, d, hc, hcert, hroots, htrusted, hlt, rfl⟩]
      rfl
  intro t d h
  obtain ⟨c, cert, roots, hc, hcert, hroots, htrusted, hlt⟩ := (hiff t d).mp h
  obtain ⟨-, hsame, hover⟩ := Lasts.exact (f := id) (fun t => lasts_trusted cert roots policy.crls) t d htrusted
  refine ⟨hlt, fun u hu hd => (hiff u d).mpr ⟨c, cert, roots, hc, hcert, hroots, hsame u hu hd, hd⟩, fun u hd d' h' => ?_⟩
  obtain ⟨c', cert', roots', -, hcert', hroots', htrusted', -⟩ := (hiff u d').mp h'
  obtain rfl : cert = cert' := Except.ok.inj (hcert.symm.trans hcert')
  obtain rfl : roots = roots' := Except.ok.inj (hroots.symm.trans hroots')
  exact hover u hd d' htrusted'

/-! ### The policy -/

omit [Pinned] in
/-- Each anchor that is valid is under a list until the end that is reported. -/
theorem untilOf_covers {roots l : List X509.Certificate} {crls : List Bytes} {limit : Option Nat} {r : Nat}
    (h : untilOf roots crls t limit l = .ok (some r)) : (∀ n ∈ limit, r ≤ n) ∧ ∀ root ∈ l, ∀ e, deadline root t = .ok e →
      r ≤ e ∧ ∃ crlEnd, revocation root root roots crls t = .ok ("good", crlEnd) ∧ r ≤ crlEnd := by
  induction l generalizing limit with
  | nil =>
    cases h
    simp
  | cons root l ih =>
    unfold untilOf at h
    cases hd : deadline root t with
    | error reason =>
      rw [hd] at h
      obtain ⟨hlimit, hall⟩ := ih h
      refine ⟨hlimit, fun x hx e he => ?_⟩
      rcases List.mem_cons.mp hx with rfl | hx
      · rw [hd] at he
        cases he
      · exact hall x hx e he
    | ok rootEnd =>
      simp only [hd] at h
      obtain ⟨⟨state, crlEnd⟩, hrev, h⟩ := bind_eq_ok.mp h
      rw [check_bind_eq_ok, denyIf_eq_ok, not_not] at h
      obtain ⟨rfl, h⟩ := h
      obtain ⟨hlimit, hall⟩ := ih h
      have hle := hlimit _ rfl
      have hboth : r ≤ min rootEnd crlEnd ∧ ∀ n ∈ limit, r ≤ n := by
        cases limit with
        | none => exact ⟨hle, by simp⟩
        | some n =>
          simp only [Option.map_some, Option.getD_some] at hle
          exact ⟨hle.trans (min_le_right _ _), fun m hm => by cases hm; exact hle.trans (min_le_left _ _)⟩
      refine ⟨hboth.2, fun x hx e he => ?_⟩
      rcases List.mem_cons.mp hx with rfl | hx
      · rw [hd] at he
        cases he
        exact ⟨hboth.1.trans (min_le_left _ _), crlEnd, hrev, hboth.1.trans (min_le_right _ _)⟩
      · exact hall x hx e he

omit [Signed] [Pinned] in
theorem select_spec {cert : X509.Certificate} {aki : Bytes} {selected : Option X509.Certificate} {roots : List X509.Certificate}
    {root : X509.Certificate} (h : select cert aki selected roots = .ok (some root)) :
    selected = some root ∨ root ∈ roots ∧ cert.issuer = root.subject := by
  induction roots generalizing selected with
  | nil =>
    cases h
    exact .inl rfl
  | cons x rest ih =>
    unfold select at h
    obtain ⟨p, -, h⟩ := bind_eq_ok.mp h
    split at h
    · rename_i hx
      rw [check_bind_eq_ok] at h
      rcases ih h.2 with hsame | ⟨hmem, hissuer⟩
      · cases hsame
        exact .inr ⟨List.mem_cons_self, hx.1⟩
      · exact .inr ⟨List.mem_cons_of_mem _ hmem, hissuer⟩
    · exact (ih h).imp_right fun hr => ⟨List.mem_cons_of_mem _ hr.1, hr.2⟩

omit [Signed] [Pinned] in
theorem anchorOf_spec {cert root : X509.Certificate} {roots : List X509.Certificate} (h : anchorOf cert roots = .ok root) :
    root ∈ roots ∧ cert.issuer = root.subject := by
  unfold anchorOf at h
  obtain ⟨-, -, h⟩ := bind_eq_ok.mp h
  obtain ⟨p, -, h⟩ := bind_eq_ok.mp h
  obtain ⟨aki, -, h⟩ := bind_eq_ok.mp h
  obtain ⟨selected, hs, h⟩ := bind_eq_ok.mp h
  rw [orElse_eq_ok.mp h] at hs
  exact (select_spec hs).resolve_left (by simp)

/-- The anchors of a country are all of them, and each is issued by itself. -/
theorem candidates_spec {issuer : Bytes} {roots : List X509.Certificate} (h : candidates issuer = .ok roots) (hne : roots ≠ []) :
    anchors = .ok roots ∧ ∀ root ∈ roots, root.issuer = root.subject := by
  obtain ⟨all, hall, hr⟩ := bind_eq_ok.mp h
  cases hr
  have hlen := collect_length hall
  have hissuer : ∀ p ∈ Pinned.anchors.zip all, p.1.issuer = jpn := fun p hp => Pinned.japanese p.1 (List.of_mem_zip hp).1
  have hjpn : issuer = jpn := by
    obtain ⟨x, hx⟩ := List.exists_mem_of_ne_nil _ hne
    obtain ⟨p, hp, -⟩ := List.mem_map.mp hx
    obtain ⟨hp, hi⟩ := List.mem_filter.mp hp
    rw [← of_decide_eq_true hi, hissuer p hp]
  have hfilter : (Pinned.anchors.zip all).filter (fun p => p.1.issuer = issuer) = Pinned.anchors.zip all :=
    List.filter_eq_self.mpr fun p hp => decide_eq_true ((hissuer p hp).trans hjpn.symm)
  have hsnd : ((Pinned.anchors.zip all).filter (fun p => p.1.issuer = issuer)).map Prod.snd = all := by
    rw [hfilter, List.map_snd_zip (by omega)]
  rw [hsnd]
  refine ⟨hall, fun root hroot => ?_⟩
  obtain ⟨a, -, ha⟩ := collect_mem hall root hroot
  unfold anchor at ha
  simp only [bind_eq_ok, exists_unit, pure_eq_ok, checkTrue, denyIf_eq_ok, not_not] at ha
  obtain ⟨-, c, -, p, -, hself, -, -, rfl⟩ := ha
  exact hself

omit [Pinned] in
/-- A list that covers an anchor covers what it has issued. -/
theorem revocation_of_anchor {cert root : X509.Certificate} {roots : List X509.Certificate} {crls : List Bytes} {r : String × Nat}
    (h : revocation root root roots crls u = .ok r) (hissuer : cert.issuer = root.issuer) :
    ∃ state, (state = "good" ∨ state = "revoked") ∧ revocation cert root roots crls u = .ok (state, r.2) := by
  obtain ⟨⟨crl, crlEnd⟩, hcurrent, hr⟩ := bind_eq_ok.mp h
  cases hr
  unfold revocation
  rw [hissuer, hcurrent, ok_bind]
  refine ⟨_, ?_, rfl⟩
  split
  · exact .inr rfl
  · exact .inl rfl

/-- Until the end that a policy reports, evidence under an anchor that was valid then is not refused for that anchor or a list. -/
theorem policy_covers {policy : Policy} {r : Nat} (h : policy.validUntil t = .ok r) (hu : t ≤ u) (hr : u < r) {issuer : Bytes}
    {cert root : X509.Certificate} {roots : List X509.Certificate} (hroots : candidates issuer = .ok roots) (hanchor : anchorOf cert roots = .ok root)
    (hvalid : ∃ e, deadline root t = .ok e) :
    deadline root u = deadline root t ∧ ∃ state crlEnd, (state = "good" ∨ state = "revoked") ∧
      revocation cert root roots policy.crls u = .ok (state, crlEnd) := by
  obtain ⟨hmem, hissuer⟩ := anchorOf_spec hanchor
  obtain ⟨hall, hself⟩ := candidates_spec hroots (List.ne_nil_of_mem hmem)
  have hpolicy : policyValidUntil policy.crls t = .ok r := h
  obtain ⟨roots', hroots', huntil⟩ := bind_eq_ok.mp hpolicy
  obtain ⟨limit, huntil, hlimit⟩ := bind_eq_ok.mp huntil
  obtain rfl : roots = roots' := Except.ok.inj (hall.symm.trans hroots')
  rw [orElse_eq_ok.mp hlimit] at huntil
  obtain ⟨e, he⟩ := hvalid
  obtain ⟨hle, crlEnd, hrev, hcrl⟩ := (untilOf_covers huntil).2 root hmem e he
  obtain ⟨-, hsame, -⟩ := Lasts.exact (f := fun r : String × Nat => r.2)
    (fun t => (lasts_revocation root root roots policy.crls).weaken fun r l _ hl => by rw [hl]; exact ⟨List.mem_singleton_self _, by simp⟩) t _ hrev
  obtain ⟨state, hstate, hcert⟩ := revocation_of_anchor (hsame u hu (lt_of_lt_of_le hr hcrl)) (hissuer.trans (hself root hmem).symm)
  refine ⟨?_, state, crlEnd, hstate, hcert⟩
  obtain ⟨hlt, ⟨hs, -⟩, rfl⟩ := deadline_eq_ok.mp he
  rw [he]
  exact deadline_eq_ok.mpr ⟨hlt, ⟨hs.trans hu, lt_of_lt_of_le hr hle⟩, rfl⟩

/-- A reason that is one of the certificate. -/
def RefusesCert (cert : X509.Certificate) (u : Nat) (reason : String) : Prop :=
  reason ≠ "csca_verified" ∧ (reason = "certificate_expired" → cert.notAfter ≤ u)

omit [Der] [Signed] [Pinned] in
theorem refuses_deadline (cert : X509.Certificate) : Refuses (deadline cert u) (RefusesCert cert u) := by
  refine .bind (.denyIf fun _ => ⟨by decide, (fun h => absurd h (by decide))⟩) fun _ => ?_
  refine .bind (.denyIf fun _ => ⟨by decide, (fun h => absurd h (by decide))⟩) fun _ => ?_
  exact .bind (.denyIf fun h => ⟨by decide, (fun _ => h)⟩) fun _ => .ok _

omit [Pinned] in
theorem evaluate_covered {cert root : X509.Certificate} {roots : List X509.Certificate} {crls : List Bytes} {d crlEnd : Nat} {state : String}
    (hanchor : anchorOf cert roots = .ok root) (hroot : deadline root u = .ok d) (hrev : revocation cert root roots crls u = .ok (state, crlEnd)) :
    (∃ limit, evaluate cert roots crls u = .ok (state, limit)) ∨
      ∃ reason, evaluate cert roots crls u = .error reason ∧ RefusesCert cert u reason := by
  unfold evaluate
  rw [hanchor, ok_bind, hroot, ok_bind]
  cases hcert : deadline cert u with
  | error reason =>
    exact .inr ⟨reason, rfl, refuses_deadline cert reason hcert⟩
  | ok certEnd =>
    have hsigned : Refuses (checkSigned root cert.signatureAlgorithm cert.signatureBytes cert.tbs) (RefusesCert cert u) := by
      have hinvalid : RefusesCert cert u "invalid_certificate" := ⟨by decide, (fun h => absurd h (by decide))⟩
      refine .bind (.orElse hinvalid) fun _ => .bind (.orElse hinvalid) fun _ => .mapError fun state => ?_
      unfold mapCrypto
      split
      · exact ⟨by decide, (fun h => absurd h (by decide))⟩
      · exact hinvalid
    rw [ok_bind]
    cases hs : checkSigned root cert.signatureAlgorithm cert.signatureBytes cert.tbs with
    | error reason => exact .inr ⟨reason, rfl, hsigned reason hs⟩
    | ok _ =>
      rw [hrev]
      exact .inl ⟨_, rfl⟩

omit [Der] [Signed] [Pinned] in
/-- The status is called unknown where the issuer is trusted, and the list has not given one. -/
theorem refuses_authorize (report : Report) (c : Option Dg1Claims) : Refuses (authorize report c u) fun reason =>
    reason = .revocationUnknown → report.issuerTrust = "csca_verified" ∧ report.revocation ≠ "revoked" ∧ report.revocation ≠ "good" := by
  refine .step (fun _ h => absurd h (by decide)) fun _ => .step (fun _ h => absurd h (by decide)) fun _ => ?_
  refine .step (fun _ h => absurd h (by decide)) fun _ => .step (fun _ h => absurd h (by decide)) fun _ => ?_
  refine .step (fun _ h => absurd h (by decide)) fun htrust => .step (fun _ h => absurd h (by decide)) fun _ => ?_
  refine .step (fun _ h => absurd h (by decide)) fun hrevoked => .step (fun hgood _ => ⟨not_not.mp htrust, hrevoked, hgood⟩) fun _ => ?_
  cases c with
  | none =>
    intro e he h
    cases he
    cases h
  | some c => exact .ok _

/-- What refuses evidence whose anchor is valid and under a list is neither. -/
theorem inspect_covered {e : Evidence} {policy : Policy} {cert root : X509.Certificate} {roots : List X509.Certificate} {d crlEnd : Nat}
    {state : String} (hinner : Signed.verifyInner e.sod e.dg1 = .ok cert) (hroots : candidates (part e.dg1 7 10) = .ok roots)
    (hanchor : anchorOf cert roots = .ok root) (hroot : deadline root u = .ok d)
    (hrev : revocation cert root roots policy.crls u = .ok (state, crlEnd)) (hstate : state = "good" ∨ state = "revoked") :
    e.verify policy u ≠ .error .revocationUnknown ∧
      ((e.inspect policy u).issuerTrust = "certificate_expired" → cert.notAfter ≤ u) := by
  unfold Evidence.verify Evidence.inspect
  cases claims e.dg1 with
  | none => exact ⟨(fun h => by cases h), fun h => absurd h (show "not_configured" ≠ "certificate_expired" by decide)⟩
  | some c =>
    simp only [hinner, check, hroots, ok_bind]
    rcases evaluate_covered hanchor hroot hrev with ⟨limit, h⟩ | ⟨reason, h, hreason, hexpired⟩
    · simp only [h]
      refine ⟨fun hv => ?_, fun h => absurd h (show "csca_verified" ≠ "certificate_expired" by decide)⟩
      obtain ⟨-, hrevoked, hgood⟩ := refuses_authorize _ _ _ hv rfl
      exact hstate.elim hgood hrevoked
    · simp only [h]
      refine ⟨fun hv => ?_, hexpired⟩
      exact hreason (refuses_authorize _ _ _ hv rfl).1

/-! ## Every verifier -/

/-- Each verifier's deadline is exact, and until what a policy reports no evidence under an anchor that was valid is refused for the anchor
or for a list. -/
theorem trust_deadlines [P256] [Texts] [Webpki] (h : TimeThroughValidity) :
    (∀ chain policy expected, Exact (fun now => Certificate.verifyReaderChain chain policy expected now) id) ∧
    (∀ chain policy expected clientId, Exact (fun now => Certificate.verifyX509HashReaderChain chain policy expected clientId now) id) ∧
    (∀ chain roots, Exact (fun now => Certificate.verifyAttesterChain chain roots now) Prod.snd) ∧
    (∀ trust expected purpose, Exact (fun now => CredentialCertificate.verify trust expected purpose now) Prod.snd) ∧
    (∀ (e : Evidence) policy, Exact (fun now => (e.verify policy now).map VerifiedDg1.evidenceValidUntil) id) ∧
    ∀ (policy : Policy) t r, policy.validUntil t = .ok r → ∀ u, t ≤ u → u < r →
      ∀ (e : Evidence) cert roots root, Signed.verifyInner e.sod e.dg1 = .ok cert → candidates (part e.dg1 7 10) = .ok roots →
        anchorOf cert roots = .ok root → (∃ d, deadline root t = .ok d) →
        deadline root u = deadline root t ∧
          (∃ state crlEnd, (state = "good" ∨ state = "revoked") ∧ revocation cert root roots policy.crls u = .ok (state, crlEnd)) ∧
          e.verify policy u ≠ .error .revocationUnknown ∧
          ((e.inspect policy u).issuerTrust = "certificate_expired" → cert.notAfter ≤ u) := by
  refine ⟨fun chain policy expected => ?_, fun chain policy expected clientId => ?_, fun chain roots => ?_, fun trust expected purpose => ?_,
    exact_evidence, ?_⟩
  · exact Lasts.exact fun t => (lasts_reader h chain policy expected).weaken fun d l _ hq => hq.1
  · exact Lasts.exact fun t => lasts_x509_hash h chain policy expected clientId
  · exact Lasts.exact fun t => lasts_attester_chain h chain roots
  · exact Lasts.exact fun t => lasts_credential h trust expected purpose
  · intro policy t r hpolicy u hu hr e cert roots root hinner hroots hanchor hvalid
    obtain ⟨hroot, state, crlEnd, hstate, hrev⟩ := policy_covers hpolicy hu hr hroots hanchor hvalid
    obtain ⟨d, hd⟩ := hvalid
    exact ⟨hroot, ⟨state, crlEnd, hstate, hrev⟩, inspect_covered hinner hroots hanchor (hroot.trans hd) hrev hstate⟩

end

/-! ## A small instance -/

namespace Sample

/-- An authority, `CN=R`. -/
def rootDer : Bytes :=
  [ 0x30, 0x82, 0x01, 0x2a, 0x30, 0x81, 0xd0, 0xa0, 0x03, 0x02, 0x01, 0x02, 0x02, 0x01, 0x01, 0x30, 0x0a, 0x06, 0x08, 0x2a, 0x86, 0x48, 0xce,
    0x3d, 0x04, 0x03, 0x02, 0x30, 0x0c, 0x31, 0x0a, 0x30, 0x08, 0x06, 0x03, 0x55, 0x04, 0x03, 0x0c, 0x01, 0x52, 0x30, 0x1e, 0x17, 0x0d, 0x32,
    0x36, 0x31, 0x31, 0x32, 0x30, 0x30, 0x32, 0x31, 0x36, 0x35, 0x33, 0x5a, 0x17, 0x0d, 0x34, 0x36, 0x31, 0x31, 0x31, 0x35, 0x30, 0x32, 0x31,
    0x36, 0x35, 0x33, 0x5a, 0x30, 0x0c, 0x31, 0x0a, 0x30, 0x08, 0x06, 0x03, 0x55, 0x04, 0x03, 0x0c, 0x01, 0x52, 0x30, 0x59, 0x30, 0x13, 0x06,
    0x07, 0x2a, 0x86, 0x48, 0xce, 0x3d, 0x02, 0x01, 0x06, 0x08, 0x2a, 0x86, 0x48, 0xce, 0x3d, 0x03, 0x01, 0x07, 0x03, 0x42, 0x00, 0x04, 0x88,
    0xbd, 0xd4, 0x73, 0x7c, 0xe9, 0xda, 0xf6, 0xd3, 0xf3, 0xe8, 0x15, 0xd6, 0xaa, 0x2c, 0x16, 0x3c, 0xed, 0x4c, 0x5a, 0x2f, 0xdd, 0x54, 0x85,
    0x31, 0x4b, 0x46, 0xd5, 0xa3, 0x38, 0x39, 0xec, 0xb9, 0xc3, 0x8b, 0xb3, 0x4f, 0x29, 0xdf, 0xa9, 0x00, 0xfd, 0xfc, 0x75, 0xeb, 0xf8, 0x6c,
    0x8c, 0xf2, 0xfe, 0x50, 0x86, 0x05, 0xdd, 0xcd, 0xce, 0x92, 0xfa, 0x04, 0xc6, 0x07, 0x4e, 0x52, 0x75, 0xa3, 0x23, 0x30, 0x21, 0x30, 0x0f,
    0x06, 0x03, 0x55, 0x1d, 0x13, 0x01, 0x01, 0xff, 0x04, 0x05, 0x30, 0x03, 0x01, 0x01, 0xff, 0x30, 0x0e, 0x06, 0x03, 0x55, 0x1d, 0x0f, 0x01,
    0x01, 0xff, 0x04, 0x04, 0x03, 0x02, 0x02, 0x04, 0x30, 0x0a, 0x06, 0x08, 0x2a, 0x86, 0x48, 0xce, 0x3d, 0x04, 0x03, 0x02, 0x03, 0x49, 0x00,
    0x30, 0x46, 0x02, 0x21, 0x00, 0xef, 0xbf, 0x23, 0xbf, 0xe8, 0x89, 0xb6, 0xd3, 0xba, 0x54, 0x31, 0x8b, 0x63, 0x23, 0x5b, 0x8b, 0x47, 0xfd,
    0xe4, 0xd5, 0xa0, 0x4d, 0x50, 0x06, 0x7f, 0xb2, 0x46, 0x70, 0x97, 0x63, 0x49, 0xc8, 0x02, 0x21, 0x00, 0xce, 0x12, 0x48, 0x0f, 0x06, 0xff,
    0x64, 0x58, 0xa3, 0xca, 0xdd, 0xcd, 0x70, 0x4d, 0x63, 0x2d, 0x9f, 0xc7, 0x13, 0x09, 0xb3, 0x8a, 0xb9, 0x93, 0xb0, 0x29, 0x8e, 0x3f, 0xf0,
    0xb6, 0x49, 0x6e ]

def rootText : String :=
  "MIIBKjCB0KADAgECAgEBMAoGCCqGSM49BAMCMAwxCjAIBgNVBAMMAVIwHhcNMjYxMTIwMDIxNjUzWhcNNDYxMTE1MDIxNjUzWjAMMQowCAYDVQQDDAFSMFkwEwYHKoZIzj" ++
  "0CAQYIKoZIzj0DAQcDQgAEiL3Uc3zp2vbT8+gV1qosFjztTFov3VSFMUtG1aM4Oey5w4uzTynfqQD9/HXr+GyM8v5QhgXdzc6S+gTGB05SdaMjMCEwDwYDVR0TAQH/BAUw" ++
  "AwEB/zAOBgNVHQ8BAf8EBAMCAgQwCgYIKoZIzj0EAwIDSQAwRgIhAO+/I7/oibbTulQxi2MjW4tH/eTVoE1QBn+yRnCXY0nIAiEAzhJIDwb/ZFijyt3NcE1jLZ/HEwmzirmTsCmOP/C2SW4="

/-- What it has issued, `CN=L`. -/
def leafDer : Bytes :=
  [ 0x30, 0x82, 0x01, 0x26, 0x30, 0x81, 0xcd, 0xa0, 0x03, 0x02, 0x01, 0x02, 0x02, 0x01, 0x02, 0x30, 0x0a, 0x06, 0x08, 0x2a, 0x86, 0x48, 0xce,
    0x3d, 0x04, 0x03, 0x02, 0x30, 0x0c, 0x31, 0x0a, 0x30, 0x08, 0x06, 0x03, 0x55, 0x04, 0x03, 0x0c, 0x01, 0x52, 0x30, 0x1e, 0x17, 0x0d, 0x32,
    0x36, 0x31, 0x31, 0x32, 0x30, 0x30, 0x32, 0x31, 0x36, 0x35, 0x33, 0x5a, 0x17, 0x0d, 0x32, 0x37, 0x31, 0x31, 0x32, 0x30, 0x30, 0x32, 0x31,
    0x36, 0x35, 0x33, 0x5a, 0x30, 0x0c, 0x31, 0x0a, 0x30, 0x08, 0x06, 0x03, 0x55, 0x04, 0x03, 0x0c, 0x01, 0x4c, 0x30, 0x59, 0x30, 0x13, 0x06,
    0x07, 0x2a, 0x86, 0x48, 0xce, 0x3d, 0x02, 0x01, 0x06, 0x08, 0x2a, 0x86, 0x48, 0xce, 0x3d, 0x03, 0x01, 0x07, 0x03, 0x42, 0x00, 0x04, 0xbb,
    0x81, 0x62, 0x97, 0x56, 0xaf, 0xcc, 0x88, 0x89, 0xd7, 0xd7, 0x65, 0x4a, 0x72, 0x20, 0x67, 0xe8, 0xf8, 0x23, 0x34, 0x0e, 0xcd, 0x80, 0xb2,
    0x07, 0x1d, 0xb7, 0x10, 0x4e, 0x39, 0x72, 0x13, 0x4e, 0x9d, 0xe7, 0x94, 0xea, 0x49, 0x8a, 0x30, 0xb4, 0x4a, 0xd2, 0x47, 0x7f, 0x9e, 0xa3,
    0xb1, 0x96, 0x1a, 0x83, 0xfa, 0x49, 0xaa, 0x98, 0x69, 0x07, 0x06, 0x24, 0x06, 0x72, 0x20, 0x5f, 0x62, 0xa3, 0x20, 0x30, 0x1e, 0x30, 0x0c,
    0x06, 0x03, 0x55, 0x1d, 0x13, 0x01, 0x01, 0xff, 0x04, 0x02, 0x30, 0x00, 0x30, 0x0e, 0x06, 0x03, 0x55, 0x1d, 0x0f, 0x01, 0x01, 0xff, 0x04,
    0x04, 0x03, 0x02, 0x07, 0x80, 0x30, 0x0a, 0x06, 0x08, 0x2a, 0x86, 0x48, 0xce, 0x3d, 0x04, 0x03, 0x02, 0x03, 0x48, 0x00, 0x30, 0x45, 0x02,
    0x20, 0x5c, 0xf1, 0xef, 0xff, 0xf8, 0xaf, 0x47, 0x9e, 0x87, 0x59, 0xa2, 0x1c, 0xb4, 0x9b, 0xb9, 0xd6, 0xd7, 0x76, 0x49, 0x60, 0x6b, 0x36,
    0xfe, 0x06, 0xd0, 0x07, 0xf9, 0x2a, 0x8d, 0x63, 0x4d, 0xa8, 0x02, 0x21, 0x00, 0x90, 0xc3, 0x50, 0xc7, 0xf4, 0x5e, 0x30, 0xcc, 0x27, 0x69,
    0xfd, 0x03, 0x23, 0x6f, 0xcb, 0xc2, 0x01, 0xba, 0x3c, 0x34, 0x22, 0xc3, 0x34, 0x9d, 0x65, 0xce, 0xbe, 0x7b, 0xc9, 0xcd, 0x68, 0x1f ]

def ecdsaWithSha256 : AlgorithmIdentifier := ⟨"1.2.840.10045.4.3.2", none⟩

def name (c : UInt8) : Name := [[⟨"2.5.4.3", .utf8String, [c]⟩]]

/-- A part of an encoding, from one index to another. -/
def slice (der : Bytes) (i j : Nat) : Bytes := (der.take j).drop i

/-- `2026-11-20T02:16:53Z` -/
def start : Nat := 1795141013

/-- `2027-11-20T02:16:53Z` -/
def leafEnd : Nat := 1826677013

/-- `2046-11-15T02:16:53Z` -/
def rootEnd : Nat := 2425861013

def root : X509.Certificate where
  version := .v3
  serialNumber := [1]
  signature := ecdsaWithSha256
  issuer := name 0x52
  notBefore := start
  notAfter := rootEnd
  subject := name 0x52
  publicKeyInfo := some (slice rootDer 87 178)
  subjectPublicKey := some (slice rootDer 113 178)
  extensions := some [⟨"2.5.29.19", true, [0x30, 0x03, 0x01, 0x01, 0xff]⟩, ⟨"2.5.29.15", true, [0x03, 0x02, 0x02, 0x04]⟩]
  tbs := some (slice rootDer 4 215)
  signatureAlgorithm := ecdsaWithSha256
  signatureBytes := some (rootDer.drop 230)
  der := some rootDer
  seconds := by decide

def leaf : X509.Certificate where
  version := .v3
  serialNumber := [2]
  signature := ecdsaWithSha256
  issuer := name 0x52
  notBefore := start
  notAfter := leafEnd
  subject := name 0x4c
  publicKeyInfo := some (slice leafDer 87 178)
  subjectPublicKey := some (slice leafDer 113 178)
  extensions := some [⟨"2.5.29.19", true, [0x30, 0x00]⟩, ⟨"2.5.29.15", true, [0x03, 0x02, 0x07, 0x80]⟩]
  tbs := some (slice leafDer 4 212)
  signatureAlgorithm := ecdsaWithSha256
  signatureBytes := some (leafDer.drop 227)
  der := some leafDer
  seconds := by decide

/-- The parsers on what is in the two certificates. -/
local instance : Der where
  certificate bytes := if bytes = leafDer then some leaf else if bytes = rootDer then some root else none
  certificateList _ := none
  keyUsage bytes := if bytes = [0x03, 0x02, 0x02, 0x04] then some ⟨32⟩ else if bytes = [0x03, 0x02, 0x07, 0x80] then some ⟨1⟩ else none
  basicConstraints bytes :=
    if bytes = [0x30, 0x00] then some ⟨false, none⟩ else if bytes = [0x30, 0x03, 0x01, 0x01, 0xff] then some ⟨true, none⟩ else none
  extendedKeyUsage _ := none
  subjectAltName _ := none
  issuerAltName _ := none
  authorityKeyIdentifier _ := none
  crlDistributionPoints _ := none
  crlNumber _ := none
  octetString _ := none
  any _ := none

/-- The key of the leaf. -/
def key : VerifyingKey := ⟨Vector.ofFn fun i => leafDer.getD (114 + i) 0, Vector.ofFn fun i => leafDer.getD (146 + i) 0⟩

local instance : P256 where
  fromPublicKeyDer bytes := if bytes = slice leafDer 87 178 then some key else none
  verify _ _ _ := false
  sha1 _ := []

local instance : Texts where
  decode text := if text = rootText then some rootDer else none
  encode bytes := if bytes = rootDer then rootText else ""
  isIpAddr _ := false
  isDnsName _ := false

/-- The one path there is, while its certificate is valid. -/
local instance : Webpki where
  anchorFromTrustedCert bytes := bytes == rootDer
  endEntityCert bytes := bytes == leafDer
  certRevocationList _ := false
  verifyForUsage p now :=
    if p.certificate = leafDer ∧ p.anchors = [rootDer] ∧ leaf.notBefore ≤ now ∧ now ≤ leaf.notAfter then .ok () else .error .other

local instance : Pinned where
  anchors := []
  japanese := by simp

local instance : Signed where
  verifyInner _ _ := .error .invalid
  verifySigned _ _ _ _ := .error .invalid

theorem timeThroughValidity : TimeThroughValidity := by
  intro p t u hcerts _
  by_cases hleaf : p.certificate = leafDer
  · obtain ⟨c, hc, hs, he⟩ := hcerts p.certificate List.mem_cons_self
    rw [hleaf] at hc
    obtain rfl : leaf = c := Option.some.inj ((if_pos rfl).symm.trans hc)
    simp only [Webpki.verifyForUsage, hs, he]
  · simp only [Webpki.verifyForUsage, hleaf, false_and, if_false]

theorem verifies : Certificate.verifyAttesterChain [leafDer] [rootText] 1800000000 = .ok (key, leafEnd) := by decide +kernel

/-- The leaf is trusted for all of its year, and no longer. -/
theorem trust_deadlines_sample :
    (∀ u, 1800000000 ≤ u → u < leafEnd → Certificate.verifyAttesterChain [leafDer] [rootText] u = .ok (key, leafEnd)) ∧
      ∀ u, leafEnd ≤ u → ∀ r, Certificate.verifyAttesterChain [leafDer] [rootText] u ≠ .ok r := by
  obtain ⟨-, hsame, hover⟩ := (trust_deadlines timeThroughValidity).2.2.1 [leafDer] [rootText] 1800000000 (key, leafEnd) verifies
  exact ⟨hsame, hover⟩

end Sample

end Mikaki.Identity.TrustDeadlines
