import Mathlib.Data.String.Basic
import Mathlib.Logic.Relation
import TruthTables.Formula
import TruthTables.Proofs.Scanning

/-!
# Labels tell formulas apart

An operand is written so that its end can be seen from the front: what follows it is determined by
the whole, `Formula.enclosed_append_inj`. The parentheses of a node, the sign between its operands
and the negation before it then follow one by one, and so does the outermost formula although it
stands bare: `Formula.label_inj`. Neither needs a bound on the height.

A label has room for those of both operands and for more, so a proper part of a formula has a
shorter label: `Formula.label_identifies`.
-/

set_option autoImplicit false

namespace TruthTables

open Grammar

/-! ## Beginnings -/

theorem Grammar.negation_append_inj {b b' : Bool} {c c' : Char} {rest rest' : List Char}
    (hc : c ≠ '~') (hc' : c' ≠ '~')
    (h : negation b ++ c :: rest = negation b' ++ c' :: rest') : b = b' ∧ c = c' ∧ rest = rest' := by
  cases b with
  | false =>
    cases b' with
    | false => exact ⟨rfl, List.cons.inj h⟩
    | true => exact absurd (List.cons.inj h).1 hc
  | true =>
    cases b' with
    | false => exact absurd (List.cons.inj h).1.symm hc'
    | true => exact ⟨rfl, List.cons.inj (List.cons.inj h).2⟩

/-- A sign is told by its first character. -/
theorem Connective.token_append_inj {op op' : Connective} {rest rest' : List Char}
    (h : op.token.toList ++ rest = op'.token.toList ++ rest') : op = op' ∧ rest = rest' := by
  cases op <;> cases op' <;> simp [token] at h ⊢ <;> exact h

namespace Formula

/-! ## Operands -/

theorem enclosed_letter (negated : Bool) (x : Variable) :
    (letter negated x).enclosed (letter negated x).written = negation negated ++ [x.letter] := by
  cases negated <;> rfl

theorem enclosed_binary (negated : Bool) (op : Connective) (l r : Formula) :
    (binary negated op l r).enclosed (binary negated op l r).written =
      negation negated ++ '(' :: (l.enclosed l.written ++
        ' ' :: (op.token.toList ++ ' ' :: (r.enclosed r.written ++ [')']))) := by
  cases negated <;> simp [enclosed, written, negation]

/-- The text that begins with an operand determines the operand and what follows it. -/
theorem enclosed_append_inj {f g : Formula} {rest rest' : List Char}
    (h : f.enclosed f.written ++ rest = g.enclosed g.written ++ rest') :
    f = g ∧ rest = rest' := by
  induction f generalizing g rest rest' with
  | letter negated x =>
    have hx : x.letter ≠ '~' := x.letter_ne (by decide)
    cases g with
    | letter negated' y =>
      simp only [enclosed_letter, List.append_assoc, List.singleton_append] at h
      obtain ⟨rfl, hxy, rfl⟩ := negation_append_inj hx (y.letter_ne (by decide)) h
      obtain rfl := Variable.letter_inj.1 hxy
      exact ⟨rfl, rfl⟩
    | binary negated' op l r =>
      simp only [enclosed_letter, enclosed_binary, List.append_assoc, List.cons_append] at h
      obtain ⟨-, hparen, -⟩ := negation_append_inj hx (by decide) h
      exact absurd hparen (x.letter_ne (by decide))
  | binary negated op l r ihl ihr =>
    cases g with
    | letter negated' y =>
      simp only [enclosed_letter, enclosed_binary, List.append_assoc, List.cons_append] at h
      obtain ⟨-, hparen, -⟩ := negation_append_inj (by decide) (y.letter_ne (by decide)) h
      exact absurd hparen.symm (y.letter_ne (by decide))
    | binary negated' op' l' r' =>
      simp only [enclosed_binary, List.append_assoc, List.cons_append, List.nil_append] at h
      obtain ⟨rfl, -, hleft⟩ := negation_append_inj (by decide) (by decide) h
      obtain ⟨rfl, hsign⟩ := ihl hleft
      obtain ⟨rfl, hright⟩ := Connective.token_append_inj (List.cons.inj hsign).2
      obtain ⟨rfl, hrest⟩ := ihr (List.cons.inj hright).2
      exact ⟨rfl, (List.cons.inj hrest).2⟩

theorem enclosed_inj {f g : Formula} (h : f.enclosed f.written = g.enclosed g.written) : f = g :=
  (enclosed_append_inj (congrArg (· ++ []) h)).1

/-! ## Whole formulas -/

/-- A formula that stands bare begins with an operand and goes on; any other one is written as an
operand. -/
theorem written_cases (f : Formula) :
    f.written = f.enclosed f.written ∨
      ∃ (l : Formula) (rest : List Char), f.written = l.enclosed l.written ++ ' ' :: rest ∧
        f.enclosed f.written = '(' :: (f.written ++ [')']) := by
  rcases f with _ | ⟨_ | _, op, l, r⟩
  · exact .inl rfl
  · exact .inr ⟨l, _, rfl, rfl⟩
  · exact .inl rfl

/-- An operand alone is no bare formula: something would follow its first operand. -/
theorem enclosed_ne_append (f l : Formula) (rest : List Char) :
    f.enclosed f.written ≠ l.enclosed l.written ++ ' ' :: rest := by
  intro h
  have hrest := (enclosed_append_inj ((List.append_nil _).trans h)).2
  cases hrest

theorem written_inj {f g : Formula} (h : f.written = g.written) : f = g := by
  rcases f.written_cases with hf | ⟨l, rest, hf, hf'⟩ <;>
    rcases g.written_cases with hg | ⟨l', rest', hg, hg'⟩
  · exact enclosed_inj (by rw [← hf, ← hg, h])
  · exact absurd (hf.symm.trans (h.trans hg)) (enclosed_ne_append f l' rest')
  · exact absurd (hg.symm.trans (h.symm.trans hf)) (enclosed_ne_append g l rest)
  · exact enclosed_inj (by rw [hf', hg', h])

/-- Formulas are told apart by their labels, however high they are. -/
theorem label_inj {f g : Formula} (h : f.label = g.label) : f = g :=
  written_inj (by rw [← toList_label, h, toList_label])

/-! ## Lengths -/

theorem length_label (f : Formula) : f.label.length = f.written.length := by
  rw [← String.length_toList, toList_label]

theorem length_written_le_enclosed (f : Formula) :
    f.written.length ≤ (f.enclosed f.written).length := by
  rcases f with _ | ⟨negated, op, l, r⟩
  · exact Nat.le_refl _
  · cases negated
    · simp only [enclosed, List.length_cons, List.length_append]
      omega
    · exact Nat.le_refl _

/-- A label has room for both operands, for the sign between them and for two spaces. -/
theorem length_operands_lt (negated : Bool) (op : Connective) (l r : Formula) :
    l.written.length + r.written.length + 2 < (binary negated op l r).written.length := by
  have hl := l.length_written_le_enclosed
  have hr := r.length_written_le_enclosed
  have hop : 0 < op.token.toList.length := by cases op <;> decide
  cases negated <;> simp only [written, if_true, if_false, Bool.false_eq_true, List.length_cons,
    List.length_append, List.length_nil] <;> omega

/-- `g` is one of the two operands of `f`. -/
inductive IsOperandOf : Formula → Formula → Prop
  | left (negated : Bool) (op : Connective) (l r : Formula) : IsOperandOf l (binary negated op l r)
  | right (negated : Bool) (op : Connective) (l r : Formula) : IsOperandOf r (binary negated op l r)

theorem length_written_lt_of_isOperandOf {f g : Formula} (h : IsOperandOf g f) :
    g.written.length < f.written.length := by
  cases h with
  | left negated op l r =>
    have hlt := length_operands_lt negated op g r
    omega
  | right negated op l r =>
    have hlt := length_operands_lt negated op l g
    omega

/-- The formula is a part of another one, at any depth. -/
abbrev IsProperPartOf : Formula → Formula → Prop := Relation.TransGen IsOperandOf

theorem length_written_lt_of_isProperPartOf {f g : Formula} (h : IsProperPartOf g f) :
    g.written.length < f.written.length := by
  induction h with
  | single h => exact length_written_lt_of_isOperandOf h
  | tail _ h ih => exact Nat.lt_trans ih (length_written_lt_of_isOperandOf h)

/-- The nodes of a formula are the formula itself and its parts. -/
theorem eq_or_isProperPartOf_of_mem_subformulas {f g : Formula} (h : g ∈ f.subformulas) :
    g = f ∨ IsProperPartOf g f := by
  induction f with
  | letter negated x =>
    left
    simpa [subformulas] using h
  | binary negated op l r ihl ihr =>
    rw [subformulas, List.mem_append, List.mem_append, List.mem_singleton] at h
    rcases h with (h | h) | h
    · right
      rcases ihl h with rfl | hpart
      · exact .single (.left negated op g r)
      · exact hpart.tail (.left negated op l r)
    · right
      rcases ihr h with rfl | hpart
      · exact .single (.right negated op l g)
      · exact hpart.tail (.right negated op l r)
    · exact .inl h

/-! ## Characters -/

/-- The characters of a label are letters, parentheses, signs and spaces. -/
theorem not_mem_written {c : Char} (hletter : isVariableLetter c = false)
    (hsigns : c ∉ ['~', '(', ')', ' ', '^', 'v', '-', '>', '<']) (f : Formula) :
    c ∉ f.written := by
  simp only [List.mem_cons, List.not_mem_nil, or_false, not_or] at hsigns
  have hvariable : ∀ x : Variable, c ≠ x.letter := fun x => (x.letter_ne hletter).symm
  induction f with
  | letter negated x => cases negated <;> simp [written, hvariable x, hsigns]
  | binary negated op l r ihl ihr =>
    have henclosed : ∀ g : Formula, c ∉ g.written → c ∉ g.enclosed g.written := by
      intro g hg
      rcases g with _ | ⟨_ | _, op, l, r⟩ <;> simp [enclosed, hg, hsigns]
    have hop : c ∉ op.token.toList := by cases op <;> simp [Connective.token, hsigns]
    have hl := henclosed l ihl
    have hr := henclosed r ihr
    cases negated <;> simp [written, hl, hr, hop, hsigns]

theorem utf8Size_of_mem_written {f : Formula} {c : Char} (h : c ∈ f.written) : c.utf8Size = 1 := by
  by_cases hletter : isVariableLetter c = true
  · exact Variable.utf8Size_letter ⟨c, hletter⟩
  · by_cases hsigns : c ∈ ['~', '(', ')', ' ', '^', 'v', '-', '>', '<']
    · have hsize : ∀ d ∈ ['~', '(', ')', ' ', '^', 'v', '-', '>', '<'], d.utf8Size = 1 := by
        simp only [List.forall_mem_cons, List.not_mem_nil, false_implies, implies_true, and_true]
        decide
      exact hsize c hsigns
    · exact absurd h (f.not_mem_written (Bool.eq_false_iff.2 hletter) hsigns)

/-- A label has as many bytes as characters. -/
theorem utf8ByteSize_label (f : Formula) : f.label.utf8ByteSize = f.label.length := by
  rw [← f.label.ofList_toList, String.utf8ByteSize_ofList, toList_label, String.length_ofList]
  exact Text.utf8Len_eq_length fun c => utf8Size_of_mem_written

/-- **A label identifies its formula**, however high the tree is: different formulas have different
labels, and what is a part of a formula has a shorter label, in characters and in bytes. -/
theorem label_identifies :
    Function.Injective label ∧
    ∀ f g, IsProperPartOf g f →
      g.label.length < f.label.length ∧ g.label.utf8ByteSize < f.label.utf8ByteSize := by
  refine ⟨fun f g => label_inj, fun f g h => ?_⟩
  have hlt := length_written_lt_of_isProperPartOf h
  rw [utf8ByteSize_label, utf8ByteSize_label, length_label, length_label]
  exact ⟨hlt, hlt⟩

/-- `~(a v b)` and `~a v b` have different labels, and as a part of `~(a v b) ^ c` the first one has
the shorter label. -/
theorem label_nor_identifies :
    let a : Formula := letter false ⟨'a', rfl⟩
    let b : Formula := letter false ⟨'b', rfl⟩
    let c : Formula := letter false ⟨'c', rfl⟩
    let nor := binary true .or a b
    nor.label ≠ (binary false .or a.negate b).label ∧
      IsProperPartOf nor (binary false .and nor c) ∧
      nor.label.length < (binary false .and nor c).label.length := by
  intro a b c nor
  have hne : nor ≠ binary false .or a.negate b := by decide
  have hpart : IsProperPartOf nor (binary false .and nor c) := .single (.left false .and nor c)
  exact ⟨label_identifies.1.ne hne, hpart, (label_identifies.2 _ _ hpart).1⟩

end Formula

end TruthTables
