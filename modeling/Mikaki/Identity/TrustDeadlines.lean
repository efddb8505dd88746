import Mikaki.Identity.CredentialCertificate
import Mikaki.Identity.PassportTrust
import Mikaki.Lib.Lasting

/-!
# Deadlines of trust

What a verifier reports as its deadline is the first end of all that it has
checked: until then the same inputs verify with the same deadline, and from
then on no more.
-/

namespace Mikaki.Identity.TrustDeadlines

open Checks X509 Lasting
open Wallet (PublicJwk orElse orElse_eq_ok)
open Certificate (CrlPolicy ReaderTrust mapError fold checkCertificateForPurpose checkCertificate crlDeadline)

/-! ## Folds -/

theorem fold_eq (d : Nat) (certs : List X509.Certificate) : fold d certs = (certs.map (·.notAfter)).foldl min d := by
  rw [fold, List.foldl_map]

theorem foldl_min_min (a b : Nat) (l : List Nat) : l.foldl min (min a b) = min a (l.foldl min b) := by
  induction l generalizing b with
  | nil => rfl
  | cons x l ih => rw [List.foldl_cons, List.foldl_cons, min_assoc, ih]

theorem mapError_eq_ok {ε ε' α : Type} {f : ε → ε'} {x : Except ε α} {a : α} : mapError f x = .ok a ↔ x = .ok a := by
  cases x with
  | error e => exact ⟨(fun h => by cases h), fun h => by cases h⟩
  | ok b => exact ⟨(fun h => by cases h; rfl), fun h => by cases h; rfl⟩

theorem headD_mem {chain : List Bytes} (h : chain ≠ []) : chain.headD [] ∈ chain := by
  cases chain with
  | nil => exact absurd rfl h
  | cons c chain => exact List.mem_cons_self

section
variable [Der] {k l m : List Nat} {t u : Nat} {bytes : Bytes}

/-! ## What is covered by the bounds -/

/-- The certificate has begun at `t`, and its end is one of the bounds. -/
def Covered (k : List Nat) (t : Nat) (bytes : Bytes) : Prop :=
  ∃ c, Der.certificate bytes = some c ∧ c.notBefore ≤ t ∧ c.notAfter ∈ k

/-- The list has begun at `t`, and a bound is no later than its next update. -/
def CoveredList (k : List Nat) (t : Nat) (bytes : Bytes) : Prop :=
  ∃ crl n, Der.certificateList bytes = some crl ∧ crl.thisUpdate ≤ t ∧ crl.nextUpdate = some n ∧ ∃ e ∈ k, e ≤ n

theorem Covered.mono (h : Covered k t bytes) (hk : k ⊆ l) : Covered l t bytes := by
  obtain ⟨c, hc, hs, he⟩ := h
  exact ⟨c, hc, hs, hk he⟩

theorem CoveredList.mono (h : CoveredList k t bytes) (hk : k ⊆ l) : CoveredList l t bytes := by
  obtain ⟨crl, n, hc, hs, hn, e, he, hle⟩ := h
  exact ⟨crl, n, hc, hs, hn, e, hk he, hle⟩

/-- What is covered is within its window at `t` and before the bounds. -/
theorem Covered.within (h : Covered k t bytes) (ht : ∀ e ∈ k, t < e) (hu : t ≤ u) (hk : ∀ e ∈ k, u < e) :
    ∃ c, Der.certificate bytes = some c ∧ (c.notBefore ≤ t ∧ t < c.notAfter) ∧ c.notBefore ≤ u ∧ u < c.notAfter := by
  obtain ⟨c, hc, hs, he⟩ := h
  exact ⟨c, hc, ⟨hs, ht _ he⟩, hs.trans hu, hk _ he⟩

theorem Covered.sameValidity (h : Covered k t bytes) (hu : t ≤ u) (hk : ∀ e ∈ k, u < e) : SameValidity bytes t u := by
  obtain ⟨c, hc, hs, he⟩ := h
  have hend := hk _ he
  exact ⟨c, hc, by omega, by omega⟩

theorem CoveredList.sameStatus (h : CoveredList k t bytes) (hu : t ≤ u) (hk : ∀ e ∈ k, u < e) : SameStatus bytes t u := by
  obtain ⟨crl, n, hc, hs, hn, e, he, hle⟩ := h
  have hend := hk e he
  exact ⟨crl, n, hc, hn, by omega, by omega⟩

/-- The verdict on a path that is covered. -/
theorem lasts_path [Webpki] (h : TimeThroughValidity) {p : Path} {ε : Type} {f : PathError → ε}
    (hc : ∀ c ∈ p.certificate :: p.intermediates ++ p.anchors, Covered k t c) (hl : ∀ crls ∈ p.crls, ∀ b ∈ crls, CoveredList k t b) :
    Lasts k (fun u => mapError f (Webpki.verifyForUsage p u)) t fun _ l => l = [] := by
  refine .still (fun _ u hu hk => ?_) fun _ _ => rfl
  rw [h p t u (fun c hm => (hc c hm).sameValidity hu hk) fun crls hm b hb => (hl crls hm b hb).sameStatus hu hk]

/-! ## One certificate -/

theorem checkCertificate_eq_ok {ca reader : Bool} {c : X509.Certificate} : checkCertificateForPurpose bytes (some u) ca reader = .ok c ↔
    ¬(bytes = [] ∨ bytes.length > 4096) ∧ Der.certificate bytes = some c ∧ (c.notBefore ≤ u ∧ u < c.notAfter) ∧
      Certificate.checkProfile c ca reader = .ok () := by
  unfold checkCertificateForPurpose Certificate.checkValidity
  rw [check_bind_eq_ok, denyIf_eq_ok, bind_eq_ok]
  simp only [orElse_eq_ok, check_bind_eq_ok, denyIf_eq_ok, pure_eq_ok, not_or, Nat.not_lt, Nat.not_le]
  constructor
  · rintro ⟨hb, c', hc, hw, hp, rfl⟩
    exact ⟨hb, hc, hw, hp⟩
  · rintro ⟨hb, hc, hw, hp⟩
    exact ⟨hb, c, hc, hw, hp, rfl⟩

theorem lasts_certificate (bytes : Bytes) (ca reader : Bool) :
    Lasts k (fun u => checkCertificateForPurpose bytes (some u) ca reader) t fun c l =>
      (Der.certificate bytes = some c ∧ c.notBefore ≤ t) ∧ l = [c.notAfter] := by
  refine Lasts.weaken (Lasts.window (W := fun c s e => (¬(bytes = [] ∨ bytes.length > 4096) ∧ Der.certificate bytes = some c ∧
    Certificate.checkProfile c ca reader = .ok ()) ∧ s = c.notBefore ∧ e = c.notAfter) (fun u c => ?_) ?_) ?_
  · rw [checkCertificate_eq_ok]
    constructor
    · rintro ⟨hb, hc, hw, hp⟩
      exact ⟨_, _, ⟨⟨hb, hc, hp⟩, rfl, rfl⟩, hw⟩
    · rintro ⟨s, e, ⟨⟨hb, hc, hp⟩, rfl, rfl⟩, hw⟩
      exact ⟨hb, hc, hw, hp⟩
  · rintro c s e c' s' e' ⟨⟨-, hc, -⟩, -, rfl⟩ ⟨⟨-, hc', -⟩, -, rfl⟩
    rw [hc] at hc'
    cases hc'
    rfl
  · rintro c l - ⟨s, e, ⟨⟨-, hc, -⟩, rfl, rfl⟩, hs, hl⟩
    exact ⟨⟨hc, hs⟩, hl⟩

/-- A certificate as one of several, with its end as the bound. -/
theorem lasts_one (bytes : Bytes) (ca reader : Bool) :
    Lasts k (fun u => checkCertificateForPurpose bytes (some u) ca reader) t fun c l => l = [c.notAfter] ∧ Covered l t bytes := by
  refine (lasts_certificate bytes ca reader).weaken fun c l _ hq => ?_
  obtain ⟨⟨hc, hs⟩, rfl⟩ := hq
  exact ⟨rfl, c, hc, hs, List.mem_singleton_self _⟩

/-- A certificate that is covered is checked with the same result. -/
theorem lasts_covered {ca reader : Bool} (h : Covered k t bytes) :
    Lasts k (fun u => checkCertificateForPurpose bytes (some u) ca reader) t fun c l => Der.certificate bytes = some c ∧ l = [] := by
  refine .still (fun hk u hu hbefore => ?_) fun c hc => ⟨(checkCertificate_eq_ok.mp hc).2.1, rfl⟩
  obtain ⟨c, hc, ⟨hs', he'⟩, hs, he⟩ := h.within hk hu hbefore
  have hwindow : ∀ v, c.notBefore ≤ v → v < c.notAfter → Certificate.checkValidity c (some v) = .ok () := by
    intro v hs he
    exact if_neg (by omega)
  unfold checkCertificateForPurpose
  rw [hc, orElse, ok_bind, ok_bind, hwindow u hs he, hwindow t hs' he']

end

section
variable [Der] [Webpki] {k l m : List Nat} {t u : Nat} {bytes : Bytes}

/-! ## Revocation lists -/

/-- The window of a list in a policy. -/
structure ListWindow (policy : CrlPolicy) (bytes : Bytes) (d s e : Nat) (crl : CertificateList) (n : Nat) : Prop where
  structural : Certificate.structural bytes = .ok crl
  nextUpdate : crl.nextUpdate = some n
  start : s = crl.thisUpdate
  deadline : e = min n (saturatingAdd crl.thisUpdate policy.maxAgeSeconds)
  result : d = e

theorem deadlineOf_eq_ok {policy : CrlPolicy} {d : Nat} : policy.deadlineOf bytes u = .ok d ↔
    ∃ s e, (∃ crl n, ListWindow policy bytes d s e crl n) ∧ s ≤ u ∧ u < e := by
  unfold CrlPolicy.deadlineOf
  simp only [bind_eq_ok, exists_unit, denyIf_eq_ok, orElse_eq_ok, pure_eq_ok, Nat.not_lt, ge_iff_le, gt_iff_lt, Nat.not_le]
  constructor
  · rintro ⟨crl, hcrl, n, hn, hs, he, hf, rfl⟩
    exact ⟨_, _, ⟨crl, n, hcrl, hn, rfl, rfl, rfl⟩, hs, Nat.lt_min.mpr ⟨he, hf⟩⟩
  · rintro ⟨s, e, ⟨crl, n, hcrl, hn, rfl, rfl, rfl⟩, hs, he⟩
    exact ⟨crl, hcrl, n, hn, hs, (Nat.lt_min.mp he).1, (Nat.lt_min.mp he).2, rfl⟩

theorem structural_der {crl : CertificateList} (h : Certificate.structural bytes = .ok crl) : Der.certificateList bytes = some crl := by
  unfold Certificate.structural at h
  obtain ⟨crl', hc, h⟩ := bind_eq_ok.mp h
  simp only [check_bind_eq_ok, pure_eq_ok] at h
  obtain ⟨-, -, -, -, -, -, rfl⟩ := h
  exact orElse_eq_ok.mp hc

theorem lasts_deadlineOf (policy : CrlPolicy) (bytes : Bytes) :
    Lasts k (fun u => policy.deadlineOf bytes u) t fun d l => l = [d] ∧ CoveredList l t bytes := by
  refine Lasts.weaken (Lasts.window (fun u d => deadlineOf_eq_ok) ?_) ?_
  · rintro d s e d' s' e' ⟨crl, n, hw⟩ ⟨crl', n', hw'⟩
    obtain rfl : crl = crl' := Except.ok.inj (hw.structural.symm.trans hw'.structural)
    obtain rfl : n = n' := Option.some.inj (hw.nextUpdate.symm.trans hw'.nextUpdate)
    rw [hw.deadline, hw'.deadline]
  · rintro d l - ⟨s, e, ⟨crl, n, hw⟩, hs, rfl⟩
    refine ⟨by rw [hw.result], crl, n, structural_der hw.structural, hw.start ▸ hs, hw.nextUpdate, e, List.mem_singleton_self _, ?_⟩
    rw [hw.deadline]
    exact Nat.min_le_left _ _

theorem lasts_deadline (policy : CrlPolicy) (bs : List Bytes) :
    Lasts k (fun u => policy.deadline bs u) t fun d l => d = l.foldl min u64Max ∧ ∀ b ∈ bs, CoveredList l t b := by
  refine Lasts.then (Lasts.collect (P := fun b _ l => CoveredList l t b) (g := id) (fun b _ k => ?_) fun _ _ _ _ h hl => h.mono hl)
    fun ends l d hq hd => ?_
  · exact (lasts_deadlineOf policy b).weaken fun d l _ h => h
  · cases hd
    obtain ⟨rfl, hall⟩ := hq
    rw [List.map_id] at *
    refine ⟨rfl, fun b hb => ?_⟩
    obtain ⟨d, -, hcovered⟩ := hall b hb
    exact hcovered

theorem lasts_crlDeadline [Texts] (revocation : Option CrlPolicy) {d : Nat} (hd : d ≤ u64Max) :
    Lasts k (fun u => crlDeadline revocation d u) t fun r l => r.2 = l.foldl min d ∧ ∀ bs ∈ r.1, ∀ b ∈ bs, CoveredList l t b := by
  cases revocation with
  | none =>
    refine .const fun r hr => ?_
    cases hr
    exact ⟨rfl, by simp⟩
  | some policy =>
    refine Lasts.step fun bs _ => (lasts_deadline policy bs).then fun e l r hq hr => ?_
    cases hr
    obtain ⟨rfl, hcovered⟩ := hq
    refine ⟨?_, by simpa using hcovered⟩
    show min d (l.foldl min u64Max) = _
    rw [← foldl_min_min, Nat.min_eq_left hd]

end

/-! ## Readers -/

theorem least_of_foldl {d₀ d : Nat} {l : List Nat} (h : d = l.foldl min d₀) : Least d (d₀ :: l) := by
  have hleast : Least ((d₀ :: l).foldl min d₀) (d₀ :: l) := least_foldl ⟨d₀, List.mem_cons_self, Nat.le_refl _⟩
  rwa [List.foldl_cons, min_self, ← h] at hleast

theorem fold_le (d : Nat) (certs : List X509.Certificate) : fold d certs ≤ d := by
  rw [fold_eq]
  exact (foldl_min_le d _).1

section
variable [Der] {k : List Nat} {t : Nat}

theorem lasts_anchor (revocation : Bool) (bytes : Bytes) :
    Lasts k (fun u => Certificate.checkAnchor revocation bytes u) t fun c l => l = [c.notAfter] ∧ Covered l t bytes := by
  refine (lasts_one bytes true true).then fun c l c' hq hc => ?_
  cases revocation with
  | false =>
    cases hc
    exact hq
  | true =>
    simp only [if_true, bind_eq_ok, exists_unit, pure_eq_ok] at hc
    obtain ⟨-, -, -, -, -, rfl⟩ := hc
    exact hq

variable [P256] [Texts] [Webpki]

theorem lasts_reader (h : TimeThroughValidity) (chain : List Bytes) (policy : ReaderTrust) (expected : PublicJwk) :
    Lasts k (fun u => Certificate.verifyReaderChain chain policy expected u) t fun d l => Least d l ∧ Covered l t (chain.headD []) := by
  unfold Certificate.verifyReaderChain
  refine .step fun _ _ => .step fun _ _ => (lasts_one _ false true).bind fun leaf l₀ hleaf => ?_
  obtain ⟨rfl, hleaf⟩ := hleaf
  refine Lasts.bind (Lasts.collect (P := fun b _ l => Covered l t b) (g := (·.notAfter))
    (fun b _ k => lasts_one b true true) fun _ _ _ _ h hl => h.mono hl) fun cas l₁ hcas => ?_
  obtain ⟨rfl, hcas⟩ := hcas
  refine .step fun key _ => .step fun _ _ => .step fun roots _ => ?_
  refine Lasts.bind (Lasts.collect (P := fun b _ l => Covered l t b) (g := (·.notAfter))
    (fun b _ k => lasts_anchor _ b) fun _ _ _ _ h hl => h.mono hl) fun anchors l₂ hanchors => ?_
  obtain ⟨rfl, hanchors⟩ := hanchors
  have hmax : fold (fold leaf.notAfter cas) anchors ≤ u64Max := (fold_le _ _).trans ((fold_le _ _).trans leaf.seconds.2)
  refine .step fun _ _ => .step fun _ _ => (lasts_crlDeadline policy.revocation hmax).bind fun r l₃ hr => ?_
  obtain ⟨crls, d⟩ := r
  obtain ⟨hd, hcrls⟩ := hr
  refine .step fun _ _ => .step fun _ _ => ?_
  refine Lasts.bind (lasts_path h (fun c hc => ?_) fun bs hbs b hb => ?_) fun _ l₄ hl₄ => ?_
  · rcases List.mem_append.mp hc with hc | hc
    · rcases List.mem_cons.mp hc with rfl | hc
      · exact hleaf.mono fun e he => by simp_all
      · obtain ⟨-, -, hc⟩ := hcas c hc
        exact hc.mono fun e he => by simp_all
    · obtain ⟨-, -, hc⟩ := hanchors c hc
      exact hc.mono fun e he => by simp_all
  · exact (hcrls bs hbs b hb).mono fun e he => by simp_all
  · subst hl₄
    refine .step fun _ _ => .const fun d' hd' => ?_
    cases hd'
    rw [fold_eq, fold_eq, ← List.foldl_append, ← List.foldl_append] at hd
    have hleast := least_of_foldl hd
    refine ⟨Least.subset hleast ?_ ?_, hleaf.mono fun e he => by simp_all⟩
    · intro e he
      simpa using he
    · intro e he
      simpa using he

theorem lasts_x509_hash (h : TimeThroughValidity) (chain : List Bytes) (policy : ReaderTrust) (expected : PublicJwk) (clientId : String) :
    Lasts k (fun u => Certificate.verifyX509HashReaderChain chain policy expected clientId u) t fun d l => Least d l := by
  unfold Certificate.verifyX509HashReaderChain
  refine .step fun _ _ => .step fun _ _ => .step fun leaf hleaf => .step fun _ _ => ?_
  have hhead : chain.headD [] = leaf := by
    obtain ⟨rest, rfl⟩ := List.head?_eq_some_iff.mp (orElse_eq_ok.mp hleaf)
    rfl
  refine (lasts_one leaf false true).bind fun cert l₀ hcert => ?_
  obtain ⟨rfl, c, hc, -, hend⟩ := hcert
  refine .step fun _ _ => .step fun roots _ => .step fun _ _ => (lasts_reader h chain policy expected).weaken fun d l _ hq => ?_
  obtain ⟨hleast, c', hc', -, hmem⟩ := hq
  rw [hhead, hc] at hc'
  cases hc'
  rw [← List.mem_singleton.mp hend]
  exact Least.subset hleast (List.subset_append_right _ _) (List.append_subset.mpr ⟨by simpa using hmem, List.Subset.refl _⟩)

/-! ## Attesters -/

omit [P256] [Texts] [Webpki] in
theorem lasts_attester (l seen : List Bytes) (ca : Bool) : Lasts k (fun u => Certificate.attesterCertificates u seen ca l) t fun cs m =>
    m = cs.map (·.notAfter) ∧ ∀ b ∈ l, Covered m t b := by
  induction l generalizing k seen ca with
  | nil => exact .const fun cs hcs => by cases hcs; exact ⟨rfl, by simp⟩
  | cons b l ih =>
    refine .step fun _ _ => (lasts_one b ca false).bind fun c l₀ hc => .step fun _ _ => ?_
    refine (ih (b :: seen) true).then fun cs m r hcs hr => ?_
    cases hr
    obtain ⟨rfl, hfirst⟩ := hc
    obtain ⟨rfl, hrest⟩ := hcs
    refine ⟨rfl, fun x hx => ?_⟩
    rcases List.mem_cons.mp hx with rfl | hx
    · exact hfirst.mono (List.subset_append_left _ _)
    · exact (hrest x hx).mono (List.subset_append_right _ _)

omit [P256] [Texts] [Webpki] in
/-- The ends of certificates have a first one, where there are any. -/
theorem least_fold {certs : List X509.Certificate} {bytes : Bytes} (h : Covered (certs.map (·.notAfter)) t bytes) :
    Least (fold u64Max certs) (certs.map (·.notAfter)) := by
  obtain ⟨c, -, -, hmem⟩ := h
  rw [fold_eq]
  exact least_foldl ⟨_, hmem, c.seconds.2⟩

theorem lasts_attester_chain (h : TimeThroughValidity) (chain : List Bytes) (roots : List String) :
    Lasts k (fun u => Certificate.verifyAttesterChain chain roots u) t fun r l => Least r.2 l := by
  unfold Certificate.verifyAttesterChain
  refine .step fun _ hne => .step fun roots _ => (lasts_attester (chain ++ roots) [] false).bind fun certs l₀ hcerts => ?_
  obtain ⟨rfl, hcovered⟩ := hcerts
  have hhead : chain.headD [] ∈ chain := by
    simp only [denyIf_eq_ok, not_or] at hne
    exact headD_mem hne.1
  have hk : certs.map (·.notAfter) ⊆ k ++ certs.map (·.notAfter) := List.subset_append_right _ _
  refine Lasts.bind (lasts_covered ((hcovered _ (List.mem_append_left _ hhead)).mono hk)) fun leaf l₁ hleaf => ?_
  obtain ⟨-, rfl⟩ := hleaf
  refine .step fun _ _ => .step fun key _ => .step fun _ _ => .step fun _ _ => ?_
  rw [List.append_nil]
  refine Lasts.bind (lasts_path h (fun c hc => (hcovered c ?_).mono hk) (by simp)) fun _ l₂ hl₂ => ?_
  · rcases List.mem_append.mp hc with hc | hc
    · rcases List.mem_cons.mp hc with rfl | hc
      · exact List.mem_append_left _ hhead
      · exact List.mem_append_left _ (List.mem_of_mem_tail hc)
    · exact List.mem_append_right _ hc
  · subst hl₂
    refine .const fun r hr => ?_
    cases hr
    simpa using least_fold (hcovered _ (List.mem_append_left _ hhead))

/-! ## Signers of credentials -/

open CredentialCertificate (Purpose SigningTrust checkIntermediate checkLinks checkDirect matchesRoot checkSignature)

omit [Texts] [Webpki] in
theorem parse_eq_ok {ca : Bool} {purpose : Purpose} {c : X509.Certificate} (h : CredentialCertificate.parse bytes ca purpose u = .ok c) :
    Der.certificate bytes = some c ∧ c.notBefore ≤ u ∧ u < c.notAfter := by
  unfold CredentialCertificate.parse CredentialCertificate.validateCertificateHeader CredentialCertificate.checkWindow at h
  simp only [bind_eq_ok, exists_unit, denyIf_eq_ok, orElse_eq_ok, pure_eq_ok, not_or, Nat.not_lt, Nat.not_le] at h
  obtain ⟨-, c', hc, ⟨-, hw, -⟩, -, rfl⟩ := h
  exact ⟨hc, hw⟩

omit [Texts] [Webpki] in
/-- A certificate is parsed with the same result wherever it is within its window. -/
theorem parse_same {ca : Bool} {purpose : Purpose} {c : X509.Certificate} (hc : Der.certificate bytes = some c)
    (ht : c.notBefore ≤ t ∧ t < c.notAfter) (hu : c.notBefore ≤ u ∧ u < c.notAfter) :
    CredentialCertificate.parse bytes ca purpose u = CredentialCertificate.parse bytes ca purpose t := by
  have hwindow : ∀ v, c.notBefore ≤ v ∧ v < c.notAfter → CredentialCertificate.checkWindow c v = .ok () := by
    intro v hv
    exact if_neg (by omega)
  unfold CredentialCertificate.parse CredentialCertificate.validateCertificateHeader
  rw [hc, orElse, ok_bind, ok_bind, hwindow u hu, hwindow t ht]

omit [Texts] [Webpki] in
theorem lasts_parse (bytes : Bytes) (ca : Bool) (purpose : Purpose) :
    Lasts k (fun u => CredentialCertificate.parse bytes ca purpose u) t fun c l =>
      (l = [c.notAfter] ∧ Covered l t bytes) ∧ Der.certificate bytes = some c := by
  refine Lasts.weaken (Lasts.window (W := fun c s e => CredentialCertificate.parse bytes ca purpose s = .ok c ∧ s = c.notBefore ∧ e = c.notAfter)
    (fun u c => ?_) ?_) ?_
  · constructor
    · intro h
      obtain ⟨hc, hs, he⟩ := parse_eq_ok h
      exact ⟨_, _, ⟨(parse_same hc ⟨hs, he⟩ ⟨Nat.le_refl _, by omega⟩).trans h, rfl, rfl⟩, hs, he⟩
    · rintro ⟨s, e, ⟨h, rfl, rfl⟩, hs, he⟩
      obtain ⟨hc, hs', he'⟩ := parse_eq_ok h
      exact (parse_same hc ⟨hs', he'⟩ ⟨hs, he⟩).trans h
  · rintro c s e c' s' e' ⟨h, -, rfl⟩ ⟨h', -, rfl⟩
    have hsame := (parse_eq_ok h).1.symm.trans (parse_eq_ok h').1
    cases hsame
    rfl
  · rintro c l - ⟨s, e, ⟨h, rfl, rfl⟩, hs, rfl⟩
    exact ⟨⟨rfl, c, (parse_eq_ok h).1, hs, List.mem_singleton_self _⟩, (parse_eq_ok h).1⟩

section
variable (ht : ∀ e ∈ k, t < e) (hu : t ≤ u) (hk : ∀ e ∈ k, u < e)
include ht hu hk

omit [Texts] [Webpki] in
theorem Covered.parse (h : Covered k t bytes) (ca : Bool) (purpose : Purpose) :
    CredentialCertificate.parse bytes ca purpose u = CredentialCertificate.parse bytes ca purpose t := by
  obtain ⟨c, hc, hwt, hwu⟩ := h.within ht hu hk
  exact parse_same hc hwt hwu

omit [Texts] [Webpki] in
theorem checkLinks_same (purpose : Purpose) (l : List Bytes) (ca : Bool) (h : ∀ b ∈ l, Covered k t b) :
    checkLinks purpose u ca l = checkLinks purpose t ca l := by
  induction l generalizing ca with
  | nil => rfl
  | cons child l ih =>
    cases l with
    | nil => rfl
    | cons parent rest =>
      have hchild := (h child List.mem_cons_self).parse ht hu hk ca purpose
      have hparent := (h parent (List.mem_cons_of_mem _ List.mem_cons_self)).parse ht hu hk true purpose
      rw [checkLinks, checkLinks, hchild, hparent, ih true fun b hb => h b (List.mem_cons_of_mem _ hb)]

omit [Texts] [Webpki] in
theorem checkDirect_same (purpose : Purpose) (leaf : X509.Certificate) (roots : List Bytes) (h : ∀ b ∈ roots, Covered k t b) :
    checkDirect purpose leaf roots u = checkDirect purpose leaf roots t := by
  cases purpose with
  | sdJwt => rfl
  | mdoc =>
    have hroots : ∀ aki, collect roots (fun b => matchesRoot leaf aki b u) = collect roots fun b => matchesRoot leaf aki b t := by
      intro aki
      refine collect_congr fun b hb => ?_
      rw [matchesRoot, matchesRoot, (h b hb).parse ht hu hk true .mdoc]
    simp only [checkDirect, hroots]

end

omit [P256] in
theorem lasts_verifyPath (h : TimeThroughValidity) (chain roots : List Bytes) (revocation : Option CrlPolicy) (purpose : Purpose) {d : Nat}
    (hd : d ≤ u64Max) (hc : ∀ b ∈ chain.headD [] :: chain.tail ++ roots, Covered k t b) :
    Lasts k (fun u => CredentialCertificate.verifyPath chain roots revocation purpose d u) t fun d' l => d' = l.foldl min d := by
  unfold CredentialCertificate.verifyPath
  refine .step fun _ _ => .step fun _ _ => (lasts_crlDeadline revocation hd).bind fun r l hr => ?_
  obtain ⟨crls, d'⟩ := r
  obtain ⟨rfl, hcrls⟩ := hr
  refine .step fun _ _ => .step fun _ _ => ?_
  refine (lasts_path h (fun b hb => (hc b hb).mono (List.subset_append_left _ _)) fun bs hbs b hb =>
    (hcrls bs hbs b hb).mono (List.subset_append_right _ _)).then fun _ l' d'' hl hd' => ?_
  cases hd'
  rw [hl, List.append_nil]

omit [Texts] [Webpki] in
theorem lasts_certificates (purpose : Purpose) (l seen : List Bytes) (ca : Bool) :
    Lasts k (fun u => CredentialCertificate.certificates purpose u seen ca l) t fun cs m =>
      m = cs.map (·.notAfter) ∧ ∀ b ∈ l, Covered m t b := by
  induction l generalizing k seen ca with
  | nil => exact .const fun cs hcs => by cases hcs; exact ⟨rfl, by simp⟩
  | cons b l ih =>
    refine .step fun _ _ => (lasts_parse b ca purpose).bind fun c l₀ hc => (ih (b :: seen) true).then fun cs m r hcs hr => ?_
    cases hr
    obtain ⟨⟨rfl, hfirst⟩, -⟩ := hc
    obtain ⟨rfl, hrest⟩ := hcs
    refine ⟨rfl, fun x hx => ?_⟩
    rcases List.mem_cons.mp hx with rfl | hx
    · exact hfirst.mono (List.subset_append_left _ _)
    · exact (hrest x hx).mono (List.subset_append_right _ _)

omit [Texts] [Webpki] in
/-- The pinned leaf adds no bound to the leaf's own. -/
theorem lasts_pinnedLeaf {leaf : X509.Certificate} (h : Covered k t bytes) (hleaf : Der.certificate bytes = some leaf) (expected : PublicJwk)
    (purpose : Purpose) : Lasts k (fun u => CredentialCertificate.pinnedLeaf bytes expected purpose u) t fun d l => d = leaf.notAfter ∧ l = [] := by
  refine .still (fun ht u hu hk => ?_) fun d hd => ?_
  · unfold CredentialCertificate.pinnedLeaf
    rw [h.parse ht hu hk]
  · unfold CredentialCertificate.pinnedLeaf at hd
    simp only [bind_eq_ok, exists_unit, pure_eq_ok] at hd
    obtain ⟨c, hc, -, -, -, -, rfl⟩ := hd
    have hsame := (parse_eq_ok hc).1.symm.trans hleaf
    cases hsame
    exact ⟨rfl, rfl⟩

theorem lasts_credential (h : TimeThroughValidity) (trust : SigningTrust) (expected : PublicJwk) (purpose : Purpose) :
    Lasts k (fun u => CredentialCertificate.verify trust expected purpose u) t fun r l => Least r.2 l := by
  unfold CredentialCertificate.verify
  refine .step fun _ hne => .step fun chain hchain => .step fun roots _ => ?_
  have hhead : chain.headD [] ∈ chain := by
    simp only [denyIf_eq_ok, not_or] at hne
    refine headD_mem fun hnil => hne.1 ?_
    have hlen := collect_length hchain
    rw [hnil] at hlen
    exact List.length_eq_zero_iff.mp hlen.symm
  refine (lasts_parse (chain.headD []) false purpose).bind fun leaf l₀ hleaf => ?_
  obtain ⟨⟨rfl, hcovered⟩, hder⟩ := hleaf
  refine (lasts_pinnedLeaf (hcovered.mono (List.subset_append_right _ _)) hder expected purpose).bind fun pinned l₁ hpinned => ?_
  obtain ⟨rfl, rfl⟩ := hpinned
  refine (lasts_certificates purpose (chain ++ roots) [] false).bind fun certs l₂ hcerts => ?_
  obtain ⟨rfl, hcerts⟩ := hcerts
  have hall : ∀ b ∈ chain ++ roots, Covered (k ++ [leaf.notAfter] ++ [] ++ certs.map (·.notAfter)) t b :=
    fun b hb => (hcerts b hb).mono (List.subset_append_right _ _)
  have hmax : fold (min u64Max leaf.notAfter) certs ≤ u64Max := (fold_le _ _).trans (Nat.min_le_left _ _)
  refine Lasts.bind (Q := fun _ l => l = []) (.still (fun ht u hu hk => checkAll_congr fun b hb => ?_) fun _ _ => rfl) fun _ l₃ hl₃ => ?_
  · rw [checkIntermediate, checkIntermediate, (hall b (List.mem_append_left _ (List.mem_of_mem_tail hb))).parse ht hu hk true purpose]
  subst hl₃
  rw [List.append_nil]
  refine Lasts.bind (Q := fun _ l => l = [])
    (.still (fun ht u hu hk => checkLinks_same ht hu hk purpose chain false fun b hb => hall b (List.mem_append_left _ hb)) fun _ _ => rfl)
    fun _ l₄ hl₄ => ?_
  subst hl₄
  rw [List.append_nil]
  refine Lasts.bind (Q := fun _ l => l = [])
    (.still (fun ht u hu hk => checkDirect_same ht hu hk purpose leaf roots fun b hb => hall b (List.mem_append_right _ hb)) fun _ _ => rfl)
    fun _ l₅ hl₅ => ?_
  subst hl₅
  rw [List.append_nil]
  refine (lasts_verifyPath h chain roots trust.revocation purpose hmax fun b hb => hall b ?_).then fun d l r hd hr => ?_
  · rcases List.mem_append.mp hb with hb | hb
    · rcases List.mem_cons.mp hb with rfl | hb
      · exact List.mem_append_left _ hhead
      · exact List.mem_append_left _ (List.mem_of_mem_tail hb)
    · exact List.mem_append_right _ hb
  · cases hr
    rw [Nat.min_eq_right leaf.seconds.2, fold_eq, ← List.foldl_append] at hd
    simpa using least_of_foldl hd

end

end Mikaki.Identity.TrustDeadlines
