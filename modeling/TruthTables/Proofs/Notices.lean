import TruthTables.Proofs.Delivery
import TruthTables.Proofs.Stability

/-!
# How long a notice is

A message without a table is a notice with the label of the whole in it, and nothing but the text
that was read bounds the length of that label: it has less than four times as many characters
(`Expression.length_label_le`). So a notice is within the limit of the transport for texts that are
short enough but not for all, since a chain of biconditionals has a label eight characters longer
for each two that it adds to the text: `length_label_biconditionals`.
-/

set_option autoImplicit false

namespace TruthTables

/-! ## Replacements do not lengthen a text -/

theorem Spelling.length_replace_le (s : Spelling) (cs : List Char) :
    (s.replace cs).length ≤ cs.length := by
  induction cs using replace_induction (s := s) with
  | nil => exact Nat.le_refl _
  | word rest ih =>
    rw [replace_word_append, word, List.length_cons, List.length_append, List.length_cons]
    omega
  | cons c rest hw ih =>
    rw [replace_cons s hw, List.length_cons, List.length_cons]
    omega

theorem length_canonicalChars_le (cs : List Char) : (canonicalChars cs).length ≤ cs.length := by
  have hwords : ∀ (words : List Spelling) (text : List Char),
      (words.foldl (fun text s => s.replace text) text).length ≤ text.length := by
    intro words
    induction words with
    | nil => exact fun text => Nat.le_refl _
    | cons s words ih => exact fun text => Nat.le_trans (ih _) (s.length_replace_le text)
  have htrim : (Text.trim cs).length ≤ cs.length := by
    have hstart : ∀ ds : List Char, (Text.trimStart ds).length ≤ ds.length := fun ds =>
      (List.dropWhile_sublist _).length_le
    have hend := hstart (Text.trimStart cs).reverse
    rw [List.length_reverse] at hend
    have hlength : (Text.trim cs).length = (Text.trimStart (Text.trimStart cs).reverse).length :=
      List.length_reverse
    have := hstart cs
    omega
  exact Nat.le_trans (hwords _ _) htrim

/-! ## Labels of derived text -/

namespace Formula

/-- The length of the label as an operand, with the parentheses that it has there. -/
def operandLength (f : Formula) : Nat := (f.enclosed f.written).length

theorem length_label_le_operandLength (f : Formula) : f.label.length ≤ f.operandLength := by
  rw [length_label]
  exact f.length_written_le_enclosed

theorem operandLength_eq_length_label (op : Connective) (l r : Formula) :
    (binary false op l r).operandLength = (binary false op l r).label.length + 2 := by
  rw [length_label, operandLength, enclosed, List.length_cons, List.length_append,
    List.length_singleton]

theorem operandLength_binary (op : Connective) (l r : Formula) :
    (binary false op l r).operandLength =
      l.operandLength + r.operandLength + op.token.length + 4 := by
  simp only [operandLength, enclosed, written, List.length_cons, List.length_append,
    String.length_toList, List.length_nil, Bool.false_eq_true, if_false]
  omega

theorem operandLength_negateIf_le (negated : Bool) (f : Formula) :
    (f.negateIf negated).operandLength ≤ f.operandLength + (Grammar.negation negated).length := by
  cases negated
  · exact Nat.le_refl _
  · rcases f with ⟨_ | _, x⟩ | ⟨_ | _, op, l, r⟩ <;>
      simp [operandLength, negateIf, negate, enclosed, written, Grammar.negation]

end Formula

namespace Grammar

mutual

theorem IsOperand.operandLength_le {text : List Char} {f : Formula} (h : IsOperand text f) :
    f.operandLength + 3 ≤ 4 * text.length :=
  match h with
  | .letter negated x => by
    cases negated <;> simp [Formula.operandLength, Formula.enclosed, Formula.written, negation]
  | @IsOperand.group negated body f h => by
    have hbody := h.operandLength_le
    have hnegate := f.operandLength_negateIf_le negated
    rw [← toggle_eq_negateIf] at hnegate
    simp only [List.length_append, List.length_cons, List.length_nil]
    omega

theorem IsTail.operandLength_le {text : List Char} {items : List (Connective × Formula)}
    (h : IsTail text items) (left : Formula) :
    (leftFold left items).operandLength ≤ left.operandLength + 4 * text.length :=
  match h with
  | .nil _ => Nat.le_add_right _ _
  | @IsTail.cons before after text rest op f items hb ha ho ht => by
    have hright := ho.operandLength_le
    have hrest := ht.operandLength_le (.binary false op left f)
    have htoken : op.token.length ≤ 3 := by cases op <;> decide
    rw [Formula.operandLength_binary] at hrest
    rw [leftFold_cons]
    simp only [List.length_append, List.length_cons]
    omega

theorem IsLevel.operandLength_le {text : List Char} {f : Formula} (h : IsLevel text f) :
    f.operandLength + 3 ≤ 4 * text.length :=
  match h with
  | @IsLevel.mk blank text rest f items hb ho ht => by
    have hfirst := ho.operandLength_le
    have hrest := ht.operandLength_le f
    simp only [List.length_append]
    omega

end

end Grammar

/-- The label of what is read has less than four times the characters of the text. -/
theorem Expression.length_label_le {s : String} {e : Expression} (h : parse s = .ok e) :
    e.label.length + 3 ≤ 4 * s.length := by
  have hcanonical := (isLevel_of_ofCanonical h).1.operandLength_le
  have hlabel := e.root.length_label_le_operandLength
  have hlength := length_canonicalChars_le s.toList
  rw [String.length_toList] at hlength
  rw [label]
  omega

/-! ## A short text with a long label -/

/-- `a <-> a <-> … <-> a` with `n` connectives. -/
def biconditionals : Nat → Formula
  | 0 => .letter false ⟨'a', rfl⟩
  | n + 1 => .binary false .iff (biconditionals n) (.letter false ⟨'a', rfl⟩)

/-- The shortest text that is read as this formula. -/
def biconditionalsText : Nat → List Char
  | 0 => ['a']
  | n + 1 => biconditionalsText n ++ ['-', 'a']

theorem height_biconditionals (n : Nat) : (biconditionals n).height = n + 1 := by
  induction n with
  | zero => rfl
  | succ n ih =>
    simp only [biconditionals, Formula.height, ih]
    omega

theorem vars_biconditionals (n : Nat) : (biconditionals n).vars = [⟨'a', rfl⟩] := by
  have hmentions : ∀ x : Variable, (biconditionals n).mentions x = (x == ⟨'a', rfl⟩) := by
    induction n with
    | zero => exact fun x => rfl
    | succ n ih => exact fun x => by rw [biconditionals, Formula.mentions, ih, Formula.mentions,
        Bool.or_self]
  rw [Formula.vars, funext hmentions]
  decide

theorem operandLength_biconditionals (n : Nat) : (biconditionals n).operandLength = 8 * n + 1 := by
  induction n with
  | zero => rfl
  | succ n ih =>
    have hletter : (Formula.letter false ⟨'a', rfl⟩).operandLength = 1 := rfl
    have htoken : Connective.iff.token.length = 3 := rfl
    rw [biconditionals, Formula.operandLength_binary, ih, hletter, htoken]
    omega

theorem length_label_biconditionals (n : Nat) :
    (biconditionals (n + 1)).label.length = 8 * n + 7 := by
  have hlength := operandLength_biconditionals (n + 1)
  rw [biconditionals, Formula.operandLength_eq_length_label] at hlength
  rw [biconditionals]
  omega

theorem length_biconditionalsText (n : Nat) : (biconditionalsText n).length = 2 * n + 1 := by
  induction n with
  | zero => rfl
  | succ n ih =>
    rw [biconditionalsText, List.length_append, ih]
    rfl

namespace Grammar

/-- A level goes on with a connective and an operand. -/
theorem IsLevel.extend {text right : List Char} {f g : Formula} (h : IsLevel text f)
    (op : Connective) (ho : IsOperand right g) :
    IsLevel (text ++ op.sign :: right) (.binary false op f g) := by
  obtain ⟨hb, hfirst, ht⟩ := h
  have hlast := @IsTail.cons _ _ _ _ op _ _ .nil .nil ho (.nil .nil)
  have hlevel := IsLevel.mk hb hfirst (ht.append hlast)
  simpa [leftFold] using hlevel

theorem isLevel_biconditionalsText (n : Nat) :
    IsLevel (biconditionalsText n) (biconditionals n) := by
  induction n with
  | zero => exact (IsOperand.letter false ⟨'a', rfl⟩).isLevel
  | succ n ih => exact ih.extend .iff (.letter false ⟨'a', rfl⟩)

theorem tight_biconditionalsText (n : Nat) : Tight (biconditionalsText n) := by
  induction n with
  | zero => exact ⟨⟨'a', [], rfl, rfl⟩, 'a', [], rfl, rfl⟩
  | succ n ih =>
    obtain ⟨⟨c, rest, hc, hw⟩, -⟩ := ih
    exact ⟨⟨c, rest ++ ['-', 'a'], by rw [biconditionalsText, hc]; rfl, hw⟩, 'a',
      biconditionalsText n ++ ['-'], by simp [biconditionalsText], rfl⟩

theorem nesting_biconditionalsText (n : Nat) : nesting (biconditionalsText n) = 0 := by
  have hnests : Nests 0 (biconditionalsText n) := by
    induction n with
    | zero => exact .flat (by simp [biconditionalsText])
    | succ n ih => exact ih.append (.flat (by simp))
  exact hnests.nesting_eq

end Grammar

open Grammar in
theorem Expression.parse_biconditionals {n : Nat} (hn : n < maxNesting) :
    parse (String.ofList (biconditionalsText n)) = .ok ⟨biconditionals n, [⟨'a', rfl⟩]⟩ := by
  have hl := isLevel_biconditionalsText n
  have htrim := (tight_biconditionalsText n).trim_eq
  rw [← vars_biconditionals n, parse_ofList, hl.canonicalChars_eq htrim]
  refine ofCanonical_of_isLevel hl ?_ ?_
  · rw [nesting_biconditionalsText]
    exact Nat.zero_le _
  · rw [height_biconditionals]
    exact hn

/-! ## Notices and the limit -/

namespace Delivery

theorem length_text_ofTable_le_iff {e : Expression} (he : e.vars = e.root.vars)
    (limits : DeliveryLimits) :
    (ofTable e.table limits).text.length ≤ limits.messageLength ↔
      (∃ message, ofTable e.table limits = .inline message) ∨
        e.label.length + 72 ≤ limits.messageLength := by
  rw [ofTable_eq he]
  split
  · next hwithin =>
    have hlength : ("```\n" ++ e.table.text ++ "\n```").length = inlineLength e :=
      length_fenced_lines e
    rw [text, hlength]
    exact iff_of_true hwithin.1 (.inl ⟨_, rfl⟩)
  · rw [text, length_notice]
    simp

/-- **Messages within the limit**: a message that is sent is within the limit if it holds the table,
or else exactly if the label of the whole leaves room for the 72 characters around it; it does for
every text that is short enough. -/
theorem length_text_le_iff {s : String} {limit : Nat} {limits : DeliveryLimits} {d : Delivery}
    (h : reply s limit limits = .ok d) :
    ∃ e, Expression.parse s = .ok e ∧
      (d.text.length ≤ limits.messageLength ↔
        (∃ message, d = .inline message) ∨ e.label.length + 72 ≤ limits.messageLength) ∧
      (4 * s.length + 69 ≤ limits.messageLength → d.text.length ≤ limits.messageLength) := by
  obtain ⟨cause, -, hr⟩ | ⟨e, hparse, ⟨-, hr⟩ | ⟨-, hr⟩⟩ := reply_cases s limit limits
  · rw [hr] at h
    cases h
  · rw [hr] at h
    cases h
  · obtain rfl := Except.ok.inj (hr.symm.trans h)
    have hiff := length_text_ofTable_le_iff (Expression.vars_of_parse hparse) limits
    have hlabel := Expression.length_label_le hparse
    exact ⟨e, hparse, hiff, fun hshort => hiff.2 (.inr (by omega))⟩

/-- With 241 connectives, `a - a - … - a` has a notice of 1999 characters. -/
theorem length_text_le_of_biconditionals :
    ∃ d, reply (String.ofList (biconditionalsText 241)) 12 {} = .ok d ∧ d.text.length ≤ 2000 := by
  let e : Expression := ⟨biconditionals 241, [⟨'a', rfl⟩]⟩
  have hparse : Expression.parse (String.ofList (biconditionalsText 241)) = .ok e :=
    Expression.parse_biconditionals (by decide)
  have hlabel : e.label.length = 1927 := length_label_biconditionals 240
  obtain ⟨d, hr⟩ : ∃ d, reply (String.ofList (biconditionalsText 241)) 12 {} = .ok d :=
    ⟨_, reply_of_le hparse (by decide)⟩
  obtain ⟨e', he, hiff, -⟩ := length_text_le_iff hr
  obtain rfl := Except.ok.inj (he.symm.trans hparse)
  exact ⟨d, hr, hiff.2 (.inr (by rw [hlabel]; decide))⟩

/-- With one more, the text has 485 characters and the notice 2007, which is beyond the limit that
is set unless another one is given. -/
theorem limit_lt_length_text_of_biconditionals :
    let s := String.ofList (biconditionalsText 242)
    s.length = 485 ∧ ∃ d, reply s Table.defaultLimit {} = .ok d ∧ d.text.length = 2007 ∧
      ({} : DeliveryLimits).messageLength = 2000 := by
  intro s
  let e : Expression := ⟨biconditionals 242, [⟨'a', rfl⟩]⟩
  have hparse : Expression.parse s = .ok e := Expression.parse_biconditionals (by decide)
  have hlabel : e.label.length = 1935 := length_label_biconditionals 241
  -- The label is too wide for a message with the table.
  have hwide : ¬ (inlineLength e ≤ ({} : DeliveryLimits).messageLength ∧
      e.label.length + 2 ≤ ({} : DeliveryLimits).columnWidth) := by
    rw [hlabel]
    exact fun hwithin => absurd hwithin.2 (by decide)
  refine ⟨?_, _, reply_of_le hparse (by decide), ?_, rfl⟩
  · rw [← String.length_toList, String.toList_ofList, length_biconditionalsText]
  · rw [ofTable_eq (vars_biconditionals 242).symm, if_neg hwide, text, length_notice, hlabel]

end Delivery

end TruthTables
