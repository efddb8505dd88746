import Mikaki.Presentation.Dcql

/-!
# What the selection of queries selects

A query is usable where its type is among the types there are and it is
available, and an option is complete where all of its queries are usable. Each
required set is covered by its first complete option. The checks before the
selection do not look at what is available.
-/

namespace Mikaki.Presentation

open Checks
open Mikaki.Vault (Base64)
open Mikaki.Identity.Wallet (orElse orElse_eq_ok)

section
variable {dcql : Dcql} {vcts : List String} {available : Option (List Bool)}

def Usable (dcql : Dcql) (vcts : List String) (available : Option (List Bool)) (i : Nat) : Prop :=
  ∃ query, dcql.credentials[i]? = some query ∧ credentialTypeMatches query vcts = .ok true ∧
    ∀ a ∈ available, a.getD i false = true

def Complete (dcql : Dcql) (vcts : List String) (available : Option (List Bool)) (option : List String) : Prop :=
  ∀ name ∈ option, ∃ i, credentialIndex dcql name = .ok i ∧ Usable dcql vcts available i

def FirstComplete (dcql : Dcql) (vcts : List String) (available : Option (List Bool)) (options : List (List String))
    (option : List String) : Prop :=
  ∃ before after, options = before ++ option :: after ∧ Complete dcql vcts available option ∧
    ∀ o ∈ before, ¬Complete dcql vcts available o

/-- The indices that the names of an option stand for. -/
def Names (dcql : Dcql) (option : List String) (i : Nat) : Prop := ∃ name ∈ option, credentialIndex dcql name = .ok i

/-- What a selection has to be. -/
structure Selection (dcql : Dcql) (vcts : List String) (available : Option (List Bool)) (selected : List Nat) : Prop where
  distinct : selected.Nodup
  usable : ∀ i ∈ selected, Usable dcql vcts available i
  whole : dcql.credentialSets = none → selected = List.range dcql.credentials.length
  covered : ∀ sets ∈ dcql.credentialSets, ∀ set ∈ sets, set.required = true →
    ∃ option, FirstComplete dcql vcts available set.options option ∧ ∀ i, Names dcql option i → i ∈ selected
  optional : ∀ sets ∈ dcql.credentialSets, (∀ set ∈ sets, set.required = false) →
    ∃ option, FirstComplete dcql vcts available (sets.flatMap (·.options)) option ∧ ∀ i, Names dcql option i → i ∈ selected
  within : ∀ sets ∈ dcql.credentialSets, ∀ i ∈ selected, ∃ option, Names dcql option i ∧
    ((∃ set ∈ sets, set.required = true ∧ FirstComplete dcql vcts available set.options option) ∨
      ((∀ set ∈ sets, set.required = false) ∧ FirstComplete dcql vcts available (sets.flatMap (·.options)) option))

/-- Some required set has no complete option; without required sets nothing is complete. -/
def Unsatisfiable (dcql : Dcql) (vcts : List String) (available : Option (List Bool)) : Prop :=
  match dcql.credentialSets with
  | none => ∃ i < dcql.credentials.length, ¬Usable dcql vcts available i
  | some sets =>
    (∃ set ∈ sets, set.required = true ∧ ∀ option ∈ set.options, ¬Complete dcql vcts available option) ∨
      ((∀ set ∈ sets, set.required = false) ∧ ∀ option ∈ sets.flatMap (·.options), ¬Complete dcql vcts available option)

/-! ## The checks before the selection -/

section
variable [Base64]

theorem matchingFrom_eq_ok {available : Nat → Bool} {ids : List String} {queries : List Query} {matched : List Bool}
    (h : matchingFrom vcts available ids queries = .ok matched) :
    matched.length = queries.length ∧
      ∀ i, matched.getD i false = true ↔
        ∃ query, queries[i]? = some query ∧ credentialTypeMatches query vcts = .ok true ∧ available i = true := by
  induction queries generalizing available ids matched with
  | nil =>
    cases h
    exact ⟨rfl, fun i => by simp⟩
  | cons query queries ih =>
    simp only [matchingFrom, bind_eq_ok, pure_eq_ok] at h
    obtain ⟨typeMatches, ht, rest, hrest, rfl⟩ := h
    obtain ⟨hl, hi⟩ := ih hrest
    refine ⟨by simp [hl], fun i => ?_⟩
    cases i with
    | zero =>
      simp only [matchingCredential, bind_eq_ok, exists_unit, pure_eq_ok] at ht
      obtain ⟨-, _, htype, -, -, -, rfl⟩ := ht
      simp [htype]
    | succ i => simpa using hi i

theorem matchingFrom_eq_error {first second : Nat → Bool} {ids : List String} {queries : List Query} {error : String}
    (h : matchingFrom vcts first ids queries = .error error) : matchingFrom vcts second ids queries = .error error := by
  induction queries generalizing first second ids with
  | nil => cases h
  | cons query queries ih =>
    unfold matchingFrom at h ⊢
    cases ht : matchingCredential vcts ids query with
    | error e =>
      rw [ht] at h
      exact h
    | ok typeMatches =>
      rw [ht, ok_bind] at h
      rw [ok_bind]
      cases hrest : matchingFrom vcts (fun i => first (i + 1)) (query.id :: ids) queries with
      | error e =>
        rw [hrest] at h
        cases h
        rw [ih hrest]
        rfl
      | ok rest =>
        rw [hrest] at h
        cases h

theorem matchingCredentials_eq_ok {matched : List Bool} (h : matchingCredentials dcql vcts available = .ok matched) :
    matched.length = dcql.credentials.length ∧ ∀ i, matched.getD i false = true ↔ Usable dcql vcts available i := by
  simp only [matchingCredentials, bind_eq_ok, exists_unit, denyIf_eq_ok] at h
  obtain ⟨hl, hi⟩ := matchingFrom_eq_ok h.2.2
  refine ⟨hl, fun i => (hi i).trans ?_⟩
  unfold Usable
  simp only [Option.all_eq_true, Option.mem_def]

end

/-! ## Options -/

theorem credentialIndex_inj {name other : String} {i : Nat} (hn : credentialIndex dcql name = .ok i)
    (ho : credentialIndex dcql other = .ok i) : name = other := by
  obtain ⟨hi, he, -⟩ := List.findIdx?_eq_some_iff_getElem.mp (orElse_eq_ok.mp hn)
  obtain ⟨_, ho, -⟩ := List.findIdx?_eq_some_iff_getElem.mp (orElse_eq_ok.mp ho)
  exact (of_decide_eq_true he).symm.trans (of_decide_eq_true ho)

theorem indices_spec {names : List String} {indices : List Nat} (h : collect names (credentialIndex dcql) = .ok indices) :
    (names.Nodup → indices.Nodup) ∧ ∀ i, i ∈ indices ↔ Names dcql names i := by
  induction names generalizing indices with
  | nil =>
    cases h
    exact ⟨fun _ => List.nodup_nil, fun i => by simp [Names]⟩
  | cons name names ih =>
    simp only [collect, bind_eq_ok, Except.ok.injEq] at h
    obtain ⟨index, hindex, rest, hrest, rfl⟩ := h
    obtain ⟨hd, hi⟩ := ih hrest
    constructor
    · intro hn
      obtain ⟨hnew, hn⟩ := List.nodup_cons.mp hn
      refine List.nodup_cons.mpr ⟨fun hm => hnew ?_, hd hn⟩
      obtain ⟨other, hother, ho⟩ := (hi index).mp hm
      rwa [credentialIndex_inj hindex ho]
    · intro i
      rw [List.mem_cons, hi]
      simp only [Names, List.exists_mem_cons_iff, hindex, Except.ok.injEq, eq_comm (a := index)]

theorem collect_isOk {names : List String} (h : ∀ name ∈ names, ∃ i, credentialIndex dcql name = .ok i) :
    ∃ indices, collect names (credentialIndex dcql) = .ok indices := by
  induction names with
  | nil => exact ⟨[], rfl⟩
  | cons name names ih =>
    obtain ⟨⟨index, hindex⟩, h⟩ := List.forall_mem_cons.mp h
    obtain ⟨indices, hindices⟩ := ih h
    exact ⟨index :: indices, by rw [collect, hindex, ok_bind, hindices, ok_bind]⟩

theorem validateOption_eq_ok {seen names : List String} (h : validateOption dcql seen names = .ok ()) :
    names.Nodup ∧ (∀ name ∈ names, name ∉ seen) ∧ ∀ name ∈ names, ∃ i, credentialIndex dcql name = .ok i := by
  induction names generalizing seen with
  | nil => simp
  | cons name names ih =>
    simp only [validateOption, bind_eq_ok, exists_unit, denyIf_eq_ok] at h
    obtain ⟨index, hindex, hnew, h⟩ := h
    obtain ⟨hd, hs, hi⟩ := ih h
    refine ⟨List.nodup_cons.mpr ⟨fun hm => hs name hm List.mem_cons_self, hd⟩, ?_, ?_⟩
    · exact List.forall_mem_cons.mpr ⟨hnew, fun other ho hseen => hs other ho (List.mem_cons_of_mem _ hseen)⟩
    · exact List.forall_mem_cons.mpr ⟨⟨index, hindex⟩, hi⟩

theorem validateSets_eq_ok {sets : List CredentialSet} (h : validateSets dcql sets = .ok ()) :
    ∀ set ∈ sets, ∀ option ∈ set.options, option.Nodup ∧ ∀ name ∈ option, ∃ i, credentialIndex dcql name = .ok i := by
  simp only [validateSets, check_bind_eq_ok, checkAll_eq_ok] at h
  intro set hset option ho
  obtain ⟨hd, -, hi⟩ := validateOption_eq_ok ((h.2 set hset).2 option ho).2
  exact ⟨hd, hi⟩

theorem optionMatches_eq_true {matched : List Bool} (hm : ∀ i, matched.getD i false = true ↔ Usable dcql vcts available i)
    {option : List String} : optionMatches dcql option matched = true ↔ Complete dcql vcts available option := by
  unfold optionMatches Complete
  rw [List.all_eq_true]
  refine forall₂_congr fun name _ => ?_
  cases hc : credentialIndex dcql name with
  | error e => simp
  | ok i => simpa using hm i

theorem find_eq_some {matched : List Bool} (hm : ∀ i, matched.getD i false = true ↔ Usable dcql vcts available i)
    {options : List (List String)} {option : List String} :
    options.find? (fun option => optionMatches dcql option matched) = some option ↔
      FirstComplete dcql vcts available options option := by
  rw [List.find?_eq_some_iff_append]
  unfold FirstComplete
  simp only [optionMatches_eq_true hm, Bool.not_eq_true', ← Bool.not_eq_true]
  constructor
  · rintro ⟨hc, before, after, he, hb⟩
    exact ⟨before, after, he, hc, hb⟩
  · rintro ⟨before, after, he, hc, hb⟩
    exact ⟨hc, before, after, he, hb⟩

theorem find_isSome {matched : List Bool} (hm : ∀ i, matched.getD i false = true ↔ Usable dcql vcts available i)
    {options : List (List String)} {option : List String} (ho : option ∈ options) (hc : Complete dcql vcts available option) :
    ∃ first, options.find? (fun option => optionMatches dcql option matched) = some first := by
  rw [← Option.isSome_iff_exists, List.find?_isSome]
  exact ⟨option, ho, (optionMatches_eq_true hm).mpr hc⟩

theorem FirstComplete.mem {options : List (List String)} {option : List String}
    (h : FirstComplete dcql vcts available options option) : option ∈ options ∧ Complete dcql vcts available option := by
  obtain ⟨before, after, rfl, hc, -⟩ := h
  exact ⟨by simp, hc⟩

theorem Complete.usable {option : List String} (h : Complete dcql vcts available option) {i : Nat} (hi : Names dcql option i) :
    Usable dcql vcts available i := by
  obtain ⟨name, hm, hn⟩ := hi
  obtain ⟨j, hj, hu⟩ := h name hm
  rw [hn] at hj
  cases hj
  exact hu

theorem selectOption_eq_ok {selected later : List Nat} {option : List String}
    (h : selectOption dcql selected option = .ok later) (hd : selected.Nodup) :
    later.Nodup ∧ ∀ i, i ∈ later ↔ i ∈ selected ∨ Names dcql option i := by
  induction option generalizing selected with
  | nil =>
    cases h
    exact ⟨hd, fun i => by simp [Names]⟩
  | cons name option ih =>
    simp only [selectOption, bind_eq_ok] at h
    obtain ⟨index, hindex, h⟩ := h
    by_cases hm : index ∈ selected
    · rw [if_pos hm] at h
      obtain ⟨hn, hi⟩ := ih h hd
      refine ⟨hn, fun i => (hi i).trans ?_⟩
      simp only [Names, List.exists_mem_cons_iff, hindex, Except.ok.injEq]
      constructor
      · exact fun h => h.imp_right .inr
      · rintro (h | rfl | h)
        · exact .inl h
        · exact .inl hm
        · exact .inr h
    · rw [if_neg hm] at h
      have hd' : (selected ++ [index]).Nodup := by
        rw [List.nodup_append]
        refine ⟨hd, List.nodup_singleton _, fun a ha b hb he => hm ?_⟩
        rwa [← List.mem_singleton.mp hb, ← he]
      obtain ⟨hn, hi⟩ := ih h hd'
      refine ⟨hn, fun i => (hi i).trans ?_⟩
      simp only [Names, List.exists_mem_cons_iff, hindex, Except.ok.injEq, List.mem_append, List.mem_singleton, or_assoc,
        eq_comm (a := index)]

theorem selectOption_isOk {option : List String} (h : ∀ name ∈ option, ∃ i, credentialIndex dcql name = .ok i)
    (selected : List Nat) : ∃ later, selectOption dcql selected option = .ok later := by
  induction option generalizing selected with
  | nil => exact ⟨selected, rfl⟩
  | cons name option ih =>
    obtain ⟨⟨index, hindex⟩, h⟩ := List.forall_mem_cons.mp h
    unfold selectOption
    rw [hindex]
    exact ih h _

/-! ## Sets -/

theorem denyAll_error {α : Type} {l : List α} {c : α → Prop} [DecidablePred c] {error e : String}
    (h : (checkAll l fun a => denyIf (c a) error) = .error e) : e = error := by
  induction l with
  | nil => cases h
  | cons a l ih =>
    by_cases ha : c a
    · rw [checkAll, denyIf, if_pos ha] at h
      cases h
      rfl
    · rw [checkAll, denyIf, if_neg ha] at h
      exact ih h

section
variable {matched : List Bool} (hm : ∀ i, matched.getD i false = true ↔ Usable dcql vcts available i)
include hm

theorem selectRequired_eq_ok {selected later : List Nat} {sets : List CredentialSet}
    (h : selectRequired dcql matched selected sets = .ok later) (hd : selected.Nodup) :
    later.Nodup ∧ (∀ set ∈ sets, ∃ option, FirstComplete dcql vcts available set.options option) ∧
      ∀ i, i ∈ later ↔ i ∈ selected ∨
        ∃ set ∈ sets, ∃ option, FirstComplete dcql vcts available set.options option ∧ Names dcql option i := by
  induction sets generalizing selected with
  | nil =>
    cases h
    exact ⟨hd, by simp, fun i => by simp⟩
  | cons set sets ih =>
    simp only [selectRequired, bind_eq_ok, orElse_eq_ok] at h
    obtain ⟨option, hoption, next, hnext, h⟩ := h
    obtain ⟨hd', hi⟩ := selectOption_eq_ok hnext hd
    obtain ⟨hn, hs, hl⟩ := ih h hd'
    refine ⟨hn, List.forall_mem_cons.mpr ⟨⟨option, (find_eq_some hm).mp hoption⟩, hs⟩, fun i => (hl i).trans ?_⟩
    rw [hi, or_assoc, List.exists_mem_cons_iff]
    refine or_congr_right (or_congr_left ?_)
    constructor
    · exact fun h => ⟨option, (find_eq_some hm).mp hoption, h⟩
    · rintro ⟨other, hother, h⟩
      rw [(find_eq_some hm).mpr hother |>.symm.trans hoption |> Option.some.inj] at h
      exact h

theorem selectRequired_isOk {sets : List CredentialSet} (h : ∀ set ∈ sets, ∃ option ∈ set.options, Complete dcql vcts available option)
    (selected : List Nat) : ∃ later, selectRequired dcql matched selected sets = .ok later := by
  induction sets generalizing selected with
  | nil => exact ⟨selected, rfl⟩
  | cons set sets ih =>
    obtain ⟨⟨option, ho, hc⟩, h⟩ := List.forall_mem_cons.mp h
    obtain ⟨first, hfirst⟩ := find_isSome hm ho hc
    have hcomplete := ((find_eq_some hm).mp hfirst).mem.2
    obtain ⟨next, hnext⟩ := selectOption_isOk (fun name hn => (hcomplete name hn).imp fun _ h => h.1) selected
    obtain ⟨later, hlater⟩ := ih h next
    refine ⟨later, ?_⟩
    unfold selectRequired
    rw [hfirst, orElse, ok_bind, hnext, ok_bind, hlater]

theorem selectSets_eq_ok {sets : List CredentialSet} {selected : List Nat} (hs : dcql.credentialSets = some sets)
    (hv : validateSets dcql sets = .ok ()) (h : selectSets dcql sets matched = .ok selected) : Selection dcql vcts available selected := by
  simp only [selectSets, bind_eq_ok, exists_unit] at h
  obtain ⟨-, chosen, hchosen, h⟩ := h
  obtain ⟨hd, hfirst, hi⟩ := selectRequired_eq_ok hm hchosen List.nodup_nil
  have hmem : ∀ set, set ∈ sets.filter (·.required) ↔ set ∈ sets ∧ set.required = true := fun set => List.mem_filter
  by_cases hr : sets.filter (·.required) = []
  · have hoptional : ∀ set ∈ sets, set.required = false := fun set hset => by
      simpa using List.filter_eq_nil_iff.mp hr set hset
    rw [if_pos hr] at h
    simp only [bind_eq_ok, orElse_eq_ok, pure_eq_ok] at h
    obtain ⟨option, hoption, indices, hindices, rfl⟩ := h
    have hempty : chosen = [] := by
      rw [hr] at hchosen
      cases hchosen
      rfl
    have hoption := (find_eq_some hm).mp hoption
    obtain ⟨set, hset, ho⟩ := List.mem_flatMap.mp hoption.mem.1
    obtain ⟨hdistinct, hnames⟩ := indices_spec hindices
    rw [hempty, List.nil_append]
    refine ⟨hdistinct (validateSets_eq_ok hv set hset option ho).1, ?_, ?_, ?_, ?_, ?_⟩
    · exact fun i hi => hoption.mem.2.usable ((hnames i).mp hi)
    · rw [hs]
      exact fun h => absurd h (Option.some_ne_none _)
    · rw [hs]
      rintro _ ⟨rfl⟩ set hset hreq
      rw [hoptional set hset] at hreq
      cases hreq
    · rw [hs]
      rintro _ ⟨rfl⟩ -
      exact ⟨option, hoption, fun i => (hnames i).mpr⟩
    · rw [hs]
      rintro _ ⟨rfl⟩ i hi
      exact ⟨option, (hnames i).mp hi, .inr ⟨hoptional, hoption⟩⟩
  · rw [if_neg hr, pure_eq_ok] at h
    subst h
    refine ⟨hd, ?_, ?_, ?_, ?_, ?_⟩
    · intro i hmi
      obtain ⟨set, -, option, ho, hn⟩ := ((hi i).mp hmi).resolve_left (List.not_mem_nil)
      exact ho.mem.2.usable hn
    · rw [hs]
      exact fun h => absurd h (Option.some_ne_none _)
    · rw [hs]
      rintro _ ⟨rfl⟩ set hset hreq
      obtain ⟨option, ho⟩ := hfirst set ((hmem set).mpr ⟨hset, hreq⟩)
      exact ⟨option, ho, fun i hn => (hi i).mpr (.inr ⟨set, (hmem set).mpr ⟨hset, hreq⟩, option, ho, hn⟩)⟩
    · rw [hs]
      rintro _ ⟨rfl⟩ hopt
      refine absurd (List.filter_eq_nil_iff.mpr fun set hset => ?_) hr
      simp [hopt set hset]
    · rw [hs]
      rintro _ ⟨rfl⟩ i hmi
      obtain ⟨set, hset, option, ho, hn⟩ := ((hi i).mp hmi).resolve_left (List.not_mem_nil)
      exact ⟨option, hn, .inl ⟨set, ((hmem set).mp hset).1, ((hmem set).mp hset).2, ho⟩⟩

/-- Sets that pass their checks can be selected from, unless nothing completes them. -/
theorem selectSets_eq_error {sets : List CredentialSet} {error : String} (hs : dcql.credentialSets = some sets)
    (hv : validateSets dcql sets = .ok ()) (h : selectSets dcql sets matched = .error error) :
    error = unsatisfiedQuery ∧ Unsatisfiable dcql vcts available := by
  have hfind : ∀ options : List (List String), (∀ option ∈ options, ¬Complete dcql vcts available option) ∨
      ∃ option, options.find? (fun option => optionMatches dcql option matched) = some option := by
    intro options
    by_cases hc : ∃ option ∈ options, Complete dcql vcts available option
    · obtain ⟨option, ho, hc⟩ := hc
      exact .inr (find_isSome hm ho hc)
    · exact .inl fun option ho h => hc ⟨option, ho, h⟩
  unfold Unsatisfiable
  rw [hs]
  dsimp only [selectSets] at h ⊢
  by_cases hall : ∀ set ∈ sets.filter (·.required), ∃ option ∈ set.options, Complete dcql vcts available option
  · have hchecked : (checkAll (sets.filter (·.required)) fun set =>
        denyIf ((set.options.any fun option => optionMatches dcql option matched) = false) unsatisfiedQuery) = .ok () := by
      refine checkAll_eq_ok.mpr fun set hset => denyIf_eq_ok.mpr ?_
      obtain ⟨option, ho, hc⟩ := hall set hset
      rw [Bool.not_eq_false, List.any_eq_true]
      exact ⟨option, ho, (optionMatches_eq_true hm).mpr hc⟩
    obtain ⟨chosen, hchosen⟩ := selectRequired_isOk hm hall []
    rw [hchecked, ok_bind, hchosen, ok_bind] at h
    by_cases hr : sets.filter (·.required) = []
    · rw [if_pos hr] at h
      rcases hfind (sets.flatMap (·.options)) with hnone | ⟨option, hoption⟩
      · have hfail : (sets.flatMap (·.options)).find? (fun option => optionMatches dcql option matched) = none := by
          refine List.find?_eq_none.mpr fun option ho hopt => hnone option ho ?_
          exact (optionMatches_eq_true hm).mp hopt
        rw [hfail] at h
        cases h
        refine ⟨rfl, .inr ⟨fun set hset => ?_, hnone⟩⟩
        simpa using List.filter_eq_nil_iff.mp hr set hset
      · obtain ⟨set, hset, ho⟩ := List.mem_flatMap.mp (List.mem_of_find?_eq_some hoption)
        obtain ⟨indices, hindices⟩ := collect_isOk (validateSets_eq_ok hv set hset option ho).2
        rw [hoption, orElse, ok_bind, hindices, ok_bind] at h
        cases h
    · rw [if_neg hr] at h
      cases h
  · simp only [not_forall] at hall
    obtain ⟨set, hset, hnone⟩ := hall
    have hnone : ∀ option ∈ set.options, ¬Complete dcql vcts available option := fun option ho hc => hnone ⟨option, ho, hc⟩
    refine ⟨?_, .inl ⟨set, (List.mem_filter.mp hset).1, (List.mem_filter.mp hset).2, hnone⟩⟩
    cases hc : checkAll (sets.filter (·.required)) fun set =>
        denyIf ((set.options.any fun option => optionMatches dcql option matched) = false) unsatisfiedQuery with
    | error e =>
      rw [hc] at h
      cases h
      exact denyAll_error hc
    | ok u =>
      have hmatch := denyIf_eq_ok.mp (checkAll_eq_ok.mp hc set hset)
      rw [Bool.not_eq_false, List.any_eq_true] at hmatch
      obtain ⟨option, ho, hopt⟩ := hmatch
      exact absurd ((optionMatches_eq_true hm).mp hopt) (hnone option ho)

end

/-! ## The selection -/

/-- A satisfied selection leaves nothing required open. -/
theorem Selection.satisfied {selected : List Nat} (h : Selection dcql vcts available selected) :
    ¬Unsatisfiable dcql vcts available := by
  unfold Unsatisfiable
  cases hs : dcql.credentialSets with
  | none =>
    rintro ⟨i, hi, hu⟩
    refine hu (h.usable i ?_)
    rw [h.whole hs]
    exact List.mem_range.mpr hi
  | some sets =>
    rintro (⟨set, hset, hreq, hnone⟩ | ⟨hopt, hnone⟩)
    · obtain ⟨option, ho, -⟩ := h.covered sets hs set hset hreq
      exact hnone option ho.mem.1 ho.mem.2
    · obtain ⟨option, ho, -⟩ := h.optional sets hs hopt
      exact hnone option ho.mem.1 ho.mem.2

/-- The checks before the selection pass. -/
structure Valid [Base64] (dcql : Dcql) (vcts : List String) : Prop where
  credentials : ∃ matched, matchingCredentials dcql vcts none = .ok matched
  sets : ∀ sets ∈ dcql.credentialSets, validateSets dcql sets = .ok ()

section
variable [Base64]

/-- Availability has one entry for each query. -/
def Fits (dcql : Dcql) (available : Option (List Bool)) : Prop := ∀ a ∈ available, a.length = dcql.credentials.length

theorem matchingCredentials_eq_error {first second : Option (List Bool)} {error : String} (hf : Fits dcql first)
    (hs : Fits dcql second) (h : matchingCredentials dcql vcts first = .error error) :
    matchingCredentials dcql vcts second = .error error := by
  have hfits : ∀ {available : Option (List Bool)}, Fits dcql available → ¬∃ a ∈ available, a.length ≠ dcql.credentials.length :=
    fun hfit ⟨a, ha, hne⟩ => hne (hfit a ha)
  unfold matchingCredentials at h ⊢
  rw [denyIf, if_neg (hfits hf), ok_bind] at h
  rw [denyIf, if_neg (hfits hs), ok_bind]
  cases hd : denyIf (dcql.credentials = [] ∨ dcql.credentials.length > 8) unsupportedQuery with
  | error e =>
    rw [hd] at h
    exact h
  | ok u =>
    rw [hd, ok_bind] at h
    exact matchingFrom_eq_error h

omit [Base64] in
theorem any_not_iff {matched : List Bool} :
    (matched.any fun m => !m) = true ↔ ∃ i < matched.length, ¬matched.getD i false = true := by
  rw [List.any_eq_true]
  constructor
  · rintro ⟨m, hm, hf⟩
    obtain ⟨i, hi, rfl⟩ := List.mem_iff_getElem.mp hm
    exact ⟨i, hi, by simpa [hi] using hf⟩
  · rintro ⟨i, hi, hf⟩
    exact ⟨matched[i], List.getElem_mem hi, by simpa [hi] using hf⟩

/-- A valid query is selected from wherever it can be satisfied. -/
theorem Valid.select (hv : Valid dcql vcts) (hf : Fits dcql available) :
    (∃ selected, selectAvailableTypes dcql vcts available = .ok selected ∧ Selection dcql vcts available selected) ∨
      (selectAvailableTypes dcql vcts available = .error unsatisfiedQuery ∧ Unsatisfiable dcql vcts available) := by
  unfold selectAvailableTypes
  cases hmatch : matchingCredentials dcql vcts available with
  | error e =>
    obtain ⟨matched, hm⟩ := hv.credentials
    rw [matchingCredentials_eq_error hf (fun a ha => by cases ha) hmatch] at hm
    cases hm
  | ok matched =>
    obtain ⟨hl, hm⟩ := matchingCredentials_eq_ok hmatch
    rw [ok_bind]
    cases hs : dcql.credentialSets with
    | none =>
      dsimp only
      by_cases hany : (matched.any fun m => !m) = true
      · rw [denyIf, if_pos hany]
        obtain ⟨i, hi, hu⟩ := any_not_iff.mp hany
        refine .inr ⟨rfl, ?_⟩
        unfold Unsatisfiable
        rw [hs]
        exact ⟨i, hl ▸ hi, fun h => hu ((hm i).mpr h)⟩
      · rw [denyIf, if_neg hany]
        refine .inl ⟨List.range matched.length, rfl, List.nodup_range, ?_, fun _ => by rw [hl], ?_, ?_, ?_⟩
        · intro i hi
          apply (hm i).mp
          by_contra hu
          exact hany (any_not_iff.mpr ⟨i, List.mem_range.mp hi, hu⟩)
        · simp [hs]
        · simp [hs]
        · simp [hs]
    | some sets =>
      dsimp only
      rw [hv.sets sets hs, ok_bind]
      cases hsel : selectSets dcql sets matched with
      | ok selected => exact .inl ⟨selected, rfl, selectSets_eq_ok hm hs (hv.sets sets hs) hsel⟩
      | error e =>
        obtain ⟨rfl, hu⟩ := selectSets_eq_error hm hs (hv.sets sets hs) hsel
        exact .inr ⟨rfl, hu⟩

/-! ## More credentials -/

/-- What is available is still available among `more`. -/
def Within (available more : Option (List Bool)) : Prop :=
  ∀ i, (∀ a ∈ available, a.getD i false = true) → ∀ a ∈ more, a.getD i false = true

omit [Base64] in
theorem Unsatisfiable.fewer {more : Option (List Bool)} (hw : Within available more)
    (h : Unsatisfiable dcql vcts more) : Unsatisfiable dcql vcts available := by
  have husable : ∀ {i}, Usable dcql vcts available i → Usable dcql vcts more i := by
    rintro i ⟨query, hq, ht, ha⟩
    exact ⟨query, hq, ht, hw i ha⟩
  have hcomplete : ∀ {option}, ¬Complete dcql vcts more option → ¬Complete dcql vcts available option := by
    intro option hno hc
    apply hno
    intro name hname
    obtain ⟨i, hi, hu⟩ := hc name hname
    exact ⟨i, hi, husable hu⟩
  unfold Unsatisfiable at h ⊢
  cases hs : dcql.credentialSets with
  | none =>
    rw [hs] at h
    obtain ⟨i, hi, hu⟩ := h
    exact ⟨i, hi, fun h => hu (husable h)⟩
  | some sets =>
    rw [hs] at h
    rcases h with ⟨set, hset, hreq, hno⟩ | ⟨hopt, hno⟩
    · exact .inl ⟨set, hset, hreq, fun option ho => hcomplete (hno option ho)⟩
    · exact .inr ⟨hopt, fun option ho => hcomplete (hno option ho)⟩

/-- A query that fails the checks is refused with one error, whatever is available. -/
theorem invalid_error (hv : ¬Valid dcql vcts) :
    ∃ error, ∀ available, Fits dcql available → selectAvailableTypes dcql vcts available = .error error := by
  cases hmatch : matchingCredentials dcql vcts none with
  | error e =>
    refine ⟨e, fun available hf => ?_⟩
    unfold selectAvailableTypes
    rw [matchingCredentials_eq_error (fun a ha => by cases ha) hf hmatch, error_bind]
  | ok matched =>
    obtain ⟨sets, hs, e, he⟩ : ∃ sets, dcql.credentialSets = some sets ∧ ∃ e, validateSets dcql sets = .error e := by
      by_contra hno
      refine hv ⟨⟨matched, hmatch⟩, fun sets hs => ?_⟩
      cases hvs : validateSets dcql sets with
      | ok u => rfl
      | error e => exact absurd ⟨sets, hs, e, hvs⟩ hno
    refine ⟨e, fun available hf => ?_⟩
    unfold selectAvailableTypes
    cases hm : matchingCredentials dcql vcts available with
    | error e' =>
      rw [matchingCredentials_eq_error hf (fun a ha => by cases ha) hm] at hmatch
      cases hmatch
    | ok later =>
      rw [ok_bind, hs]
      dsimp only
      rw [he, error_bind]

end

end

end Mikaki.Presentation
