import Mikaki.Lib.Slices

/-!
# Fields of a text

Fields that lie in a text one after another, each behind a header that depends
on its tag and its length. Their values are slices of the text, in its order.
`Reads` is what a loop over a text has to do in a round to collect its fields.
-/

namespace Spans

variable {τ α : Type}

/-- The fields of a text from its start on, and what is left of it behind them. -/
inductive Laid (header : τ → Nat → List α → Prop) : List α → List (τ × List α) → List α → Prop where
  | done (rest : List α) : Laid header rest [] rest
  | field {tag : τ} {value head l rest : List α} {fields : List (τ × List α)} (hh : header tag value.length head)
      (hl : Laid header l fields rest) : Laid header (head ++ (value ++ l)) ((tag, value) :: fields) rest

/-- Slices of a text that do not overlap, in its order. -/
structure InOrder (l : List α) (values : List (List α)) (spans : List (Nat × Nat)) : Prop where
  values : values = spans.map fun s => (l.drop s.1).take (s.2 - s.1)
  inside : ∀ s ∈ spans, s.1 ≤ s.2 ∧ s.2 ≤ l.length
  ordered : spans.Pairwise fun s t => s.2 ≤ t.1

theorem inOrder_nil (l : List α) : InOrder l [] [] := ⟨rfl, fun _ h => (List.not_mem_nil h).elim, List.Pairwise.nil⟩

/-- The slices of what follows are slices of the whole. -/
theorem InOrder.behind {l : List α} {values : List (List α)} {spans : List (Nat × Nat)} (h : InOrder l values spans) (pre : List α) :
    InOrder (pre ++ l) values (spans.map fun s => (pre.length + s.1, pre.length + s.2)) := by
  refine ⟨?_, ?_, ?_⟩
  · rw [h.values, List.map_map]
    refine List.map_congr_left fun s hs => ?_
    dsimp only [Function.comp]
    rw [List.drop_append, List.drop_eq_nil_of_le (Nat.le_add_right _ _), List.nil_append, Nat.add_sub_cancel_left,
      Nat.add_sub_add_left]
  · intro s hs
    obtain ⟨t, ht, rfl⟩ := List.mem_map.mp hs
    obtain ⟨h1, h2⟩ := h.inside t ht
    rw [List.length_append]
    dsimp only
    omega
  · rw [List.pairwise_map]
    exact h.ordered.imp fun hle => Nat.add_le_add_left hle _

theorem InOrder.cons {head value l : List α} {values : List (List α)} {spans : List (Nat × Nat)} (h : InOrder l values spans) :
    ∃ spans', InOrder (head ++ (value ++ l)) (value :: values) spans' := by
  have hb := h.behind (head ++ value)
  rw [List.append_assoc] at hb
  refine ⟨(head.length, head.length + value.length) :: _, ⟨?_, ?_, List.pairwise_cons.mpr ⟨?_, hb.ordered⟩⟩⟩
  · rw [List.map_cons, ← hb.values, Nat.add_sub_cancel_left, List.drop_left' rfl, List.take_left' rfl]
  · refine List.forall_mem_cons.mpr ⟨⟨Nat.le_add_right _ _, ?_⟩, hb.inside⟩
    simp only [List.length_append]
    omega
  · intro s hs
    obtain ⟨t, -, rfl⟩ := List.mem_map.mp hs
    rw [List.length_append]
    exact Nat.le_add_right _ _

theorem Laid.inOrder {header : τ → Nat → List α → Prop} {l rest : List α} {fields : List (τ × List α)}
    (h : Laid header l fields rest) : ∃ spans, InOrder l (fields.map Prod.snd) spans := by
  induction h with
  | done rest => exact ⟨[], inOrder_nil rest⟩
  | field _ _ ih =>
    obtain ⟨spans, hs⟩ := ih
    exact hs.cons

/-- The text of fields with the headers of a function. -/
def written (header : τ → Nat → List α) (fields : List (τ × List α)) : List α :=
  fields.flatMap fun f => header f.1 f.2.length ++ f.2

theorem written_cons (header : τ → Nat → List α) (tag : τ) (value : List α) (fields : List (τ × List α)) :
    written header ((tag, value) :: fields) = header tag value.length ++ (value ++ written header fields) := by
  rw [written, List.flatMap_cons, List.append_assoc]
  rfl

/-! ## Loops that collect fields -/

section
open Slices
variable {ε : Type} {round : List (τ × List α) → List α → Except (Stop ε) (List (τ × List α) × List α)}
  (less : ∀ s l s' rest, round s l = .ok (s', rest) → rest.length < l.length) {header : τ → Nat → List α → Prop} {End : List α → Prop}

/-- A round takes one field of a new tag, or the end of the text. -/
structure Reads (round : List (τ × List α) → List α → Except (Stop ε) (List (τ × List α) × List α)) (header : τ → Nat → List α → Prop)
    (End : List α → Prop) : Prop where
  field : ∀ {s tag v head rest}, header tag v.length head → tag ∉ s.map Prod.fst →
    round s (head ++ (v ++ rest)) = .ok (s ++ [(tag, v)], rest)
  cases : ∀ {s l s' rest}, round s l = .ok (s', rest) → (End l ∧ s = s' ∧ rest = []) ∨
    ∃ tag head v, header tag v.length head ∧ l = head ++ (v ++ rest) ∧ tag ∉ s.map Prod.fst ∧ s ++ [(tag, v)] = s'

include less in
/-- There is no field in nothing. -/
theorem Reads.eq_nil (hr : Reads round header End) {l rest : List α} {fields : List (τ × List α)} (h : Laid header l fields rest)
    (hl : l = []) : fields = [] := by
  cases h with
  | done => rfl
  | @field tag value head l _ fields hh _ =>
    have hround : round [] (head ++ (value ++ l)) = .ok ([] ++ [(tag, value)], l) := hr.field hh List.not_mem_nil
    have hlt := less _ _ _ _ hround
    rw [hl] at hlt
    exact absurd hlt (Nat.not_lt_zero _)

/-- What a loop has collected is the fields of the text, with no tag twice. -/
theorem Reads.laid (hr : Reads round header End) {s t : List (τ × List α)} {l : List α} (h : consume less s l = .ok t) :
    ((s.map Prod.fst).Nodup → (t.map Prod.fst).Nodup) ∧
      ∃ fields rest, t = s ++ fields ∧ Laid header l fields rest ∧ (rest = [] ∨ End rest) := by
  refine consume_induct less (P := fun s l t => ((s.map Prod.fst).Nodup → (t.map Prod.fst).Nodup) ∧
    ∃ fields rest, t = s ++ fields ∧ Laid header l fields rest ∧ (rest = [] ∨ End rest)) ?_ ?_ h
  · intro s
    exact ⟨id, [], [], (List.append_nil s).symm, .done [], .inl rfl⟩
  · intro s l s' rest t _ hround ih
    obtain ⟨hnodup, fields, behind, ht, hl, hend⟩ := ih
    obtain ⟨hlast, rfl, rfl⟩ | ⟨tag, head, v, hh, rfl, hnew, rfl⟩ := hr.cases hround
    · -- nothing is left, so nothing more was collected
      have hempty : fields = [] := hr.eq_nil less hl rfl
      subst hempty
      exact ⟨hnodup, [], l, ht, .done l, .inr hlast⟩
    · refine ⟨fun hs => hnodup ?_, (tag, v) :: fields, behind, ?_, .field hh hl, hend⟩
      · rw [List.map_append, List.map_cons, List.map_nil, List.nodup_append]
        refine ⟨hs, List.nodup_singleton _, fun a ha b hb he => hnew ?_⟩
        have htag : a = tag := he.trans (List.mem_singleton.mp hb)
        exact htag ▸ ha
      · rw [ht, List.append_assoc, List.singleton_append]

/-- Fields are collected from their text. -/
theorem Reads.consume_written (hr : Reads round header End) (head : τ → Nat → List α) {s fields : List (τ × List α)}
    (hf : ∀ f ∈ fields, header f.1 f.2.length (head f.1 f.2.length)) (hn : ((s ++ fields).map Prod.fst).Nodup) (rest : List α) :
    consume less s (written head fields ++ rest) = consume less (s ++ fields) rest := by
  induction fields generalizing s with
  | nil => rw [List.append_nil]; rfl
  | cons f fields ih =>
    obtain ⟨tag, v⟩ := f
    obtain ⟨hh, hf⟩ := List.forall_mem_cons.mp hf
    have hnew : tag ∉ s.map Prod.fst := by
      rw [List.map_append, List.nodup_append] at hn
      exact fun hm => hn.2.2 _ hm _ List.mem_cons_self rfl
    rw [written_cons, List.append_assoc, List.append_assoc]
    have hround : round s (head tag v.length ++ (v ++ (written head fields ++ rest))) =
        .ok (s ++ [(tag, v)], written head fields ++ rest) := hr.field hh hnew
    have hne : head tag v.length ++ (v ++ (written head fields ++ rest)) ≠ [] := by
      intro he
      have hlt := less _ _ _ _ hround
      rw [he] at hlt
      exact Nat.not_lt_zero _ hlt
    rw [consume_round less hne hround, ih hf (by rwa [List.append_assoc, List.singleton_append]), List.append_assoc,
      List.singleton_append]

end

end Spans
