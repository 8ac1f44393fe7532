import TruthTables.Proofs.Diagnosis
import TruthTables.Proofs.Rows
import TruthTables.Proofs.Tabulation

/-!
# The variables of a text

The variables of an expression are collected from the tokens and not from the tree. They are the
letters of the canonical text but for the reserved one (`Token.Scanned.letter_iff`), and the tree
has no others, since nothing that is read is dropped (`Expression.vars_of_parse`). So there are 25
at most and never none, a row number fits into a machine word, and every row gives values to all
variables of the tree: `Expression.letters_of_parse`.
-/

set_option autoImplicit false

namespace TruthTables

open Grammar

/-- A letter of the ASCII alphabet that the disjunction does not take. -/
def IsFreeLetter (c : Char) : Prop := c.isAlpha = true ∧ c ≠ Variable.reserved

instance (c : Char) : Decidable (IsFreeLetter c) := inferInstanceAs (Decidable (_ ∧ _))

theorem Variable.isFreeLetter (x : Variable) : IsFreeLetter x.letter := by
  have hall : ∀ y ∈ all, IsFreeLetter y.letter := by decide
  exact hall x x.mem_all

/-- Every formula has a variable. -/
theorem Formula.vars_ne_nil (f : Formula) : f.vars ≠ [] := by
  have hmentions : ∃ x, f.mentions x = true := by
    induction f with
    | letter negated x => exact ⟨x, beq_self_eq_true x⟩
    | binary negated op l r ihl _ =>
      obtain ⟨x, hx⟩ := ihl
      exact ⟨x, by simp [mentions, hx]⟩
  obtain ⟨x, hx⟩ := hmentions
  exact List.ne_nil_of_mem (mem_vars.2 hx)

namespace Token

/-- The free letters of a token are those of the variables in it. -/
theorem mem_chars_iff {t : Token} {c : Char} :
    c ∈ t.chars ∧ IsFreeLetter c ↔ ∃ x, t.mentions x = true ∧ x.letter = c := by
  -- a negation in front is no letter, so the last character decides
  have hface : c ∈ t.chars ∧ IsFreeLetter c ↔ c = t.face ∧ IsFreeLetter c := by
    obtain ⟨negated, hchars⟩ := t.chars_eq
    rw [hchars, List.mem_append, List.mem_singleton]
    refine and_congr_left fun hc => or_iff_right fun h => ?_
    obtain rfl := eq_of_mem_negation h
    exact absurd hc (by decide)
  have hother : ∀ d, ¬ IsFreeLetter d → ¬ (c = d ∧ IsFreeLetter c) := by
    rintro d hd ⟨rfl, hc⟩
    exact hd hc
  have hnone : ¬ ∃ x : Variable, false = true ∧ x.letter = c := fun ⟨_, h, _⟩ =>
    Bool.false_ne_true h
  rw [hface]
  cases t with
  | letter negated x p =>
    constructor
    · rintro ⟨rfl, -⟩
      exact ⟨x, beq_self_eq_true x, rfl⟩
    · rintro ⟨y, hy, rfl⟩
      obtain rfl := beq_iff_eq.1 hy
      exact ⟨rfl, y.isFreeLetter⟩
  | opening negated p => exact iff_of_false (hother '(' (by decide)) hnone
  | closing p => exact iff_of_false (hother ')' (by decide)) hnone
  | connective op p => exact iff_of_false (hother op.sign (by cases op <;> decide)) hnone

theorem letter_varsOf_iff {ts : List Token} {c : Char} :
    (∃ x ∈ Expression.varsOf ts, x.letter = c) ↔
      ∃ t ∈ ts, ∃ x, t.mentions x = true ∧ x.letter = c := by
  simp only [Expression.mem_varsOf]
  constructor
  · rintro ⟨x, ⟨t, ht, hx⟩, hc⟩
    exact ⟨t, ht, x, hx, hc⟩
  · rintro ⟨t, ht, x, hx, hc⟩
    exact ⟨x, ⟨t, ht, hx⟩, hc⟩

/-- The free letters of a text of tokens are those of the variables. -/
theorem Scanned.letter_iff {p : Nat} {cs : List Char} {ts : List Token} (h : Scanned p cs ts)
    {c : Char} : c ∈ cs ∧ IsFreeLetter c ↔ ∃ x ∈ Expression.varsOf ts, x.letter = c := by
  rw [letter_varsOf_iff]
  induction h with
  | nil p => simp
  | @blank p d cs ts hd h ih =>
    have hne : ¬ (c = d ∧ IsFreeLetter c) := by
      rintro ⟨rfl, hc⟩
      rcases Text.eq_of_ascii hd with rfl | rfl | rfl | rfl | rfl <;> exact absurd hc (by decide)
    rw [List.mem_cons, or_and_right, or_iff_right hne]
    exact ih
  | @token p t cs ts ht h ih =>
    rw [List.mem_append, or_and_right, mem_chars_iff, List.exists_mem_cons_iff]
    exact or_congr_right ih

end Token

namespace Expression

/-- **The variables are the letters of the text**: when a text is read, the list of variables is
strictly ascending, it is neither empty nor longer than 25, it is that of the tree, and it has the
letters of the canonical text other than the reserved one, at whatever depth. So no shift or
subtraction overflows when the rows are counted in machine words, and the tree has a value in every
row. -/
theorem letters_of_parse {s : String} {e : Expression} (h : parse s = .ok e) :
    e.vars.Pairwise (· < ·) ∧ e.vars ≠ [] ∧ e.vars.length ≤ 25 ∧ e.vars = e.root.vars ∧
    (∀ c, c ∈ canonicalChars s.toList ∧ IsFreeLetter c ↔ ∃ x ∈ e.vars, x.letter = c) ∧
    Assignment.wordRows? e.vars = some (Assignment.enumerate e.vars) ∧
    (∀ a ∈ Assignment.enumerate e.vars, ∃ b, e.root.eval a = .ok b) ∧
    ∃ t, Table.build e = .ok t := by
  obtain ⟨hlevel, -, -, he⟩ := isLevel_of_ofCanonical h
  obtain ⟨ts, l, hs, hm, hl⟩ := hlevel.read 0
  have hvars : e.vars = varsOf ts := he.trans (varsOf_eq hm hl).symm
  have hxs := pairwise_vars he
  have hlength : e.vars.length ≤ 25 := by
    rw [he, ← Variable.length_all]
    exact List.length_filter_le _ _
  refine ⟨hxs, ?_, hlength, he, fun c => ?_, ?_, fun a ha => ?_, _, Table.build_eq he⟩
  · rw [he]
    exact e.root.vars_ne_nil
  · rw [hvars]
    exact hs.letter_iff
  · rw [Assignment.wordRows?_eq, if_pos (Nat.lt_of_le_of_lt hlength (by decide))]
  · have ha := (Assignment.mem_enumerate hxs).1 ha
    exact ⟨_, Formula.eval_of_covers (Assignment.covers_of_vars (ha.trans he))⟩

/-- In `~((q and p) or q)` the `v` of the disjunction is no variable. -/
theorem letters_negated_groups :
    let f : Formula := .binary true .or (.binary false .and (.letter false ⟨'q', rfl⟩)
      (.letter false ⟨'p', rfl⟩)) (.letter false ⟨'q', rfl⟩)
    let e : Expression := ⟨f, [⟨'p', rfl⟩, ⟨'q', rfl⟩]⟩
    parse "~((q and p) or q)" = .ok e ∧ (Assignment.wordRows? e.vars).isSome = true ∧
      ¬ 'v' ∈ (e.vars.map (·.letter)) := by
  intro f e
  have hparse : parse "~((q and p) or q)" = .ok e := by rfl
  obtain ⟨-, -, -, -, hletters, hrows, -⟩ := letters_of_parse hparse
  refine ⟨hparse, by rw [hrows]; rfl, fun hv => ?_⟩
  obtain ⟨x, hx, hletter⟩ := List.mem_map.1 hv
  exact ((hletters 'v').2 ⟨x, hx, hletter⟩).2.2 rfl

end Expression

end TruthTables
