import TruthTables.Proofs.Refusal

/-!
# Errors as diagnoses

An error is a diagnosis of the canonical text: it names a byte where a character begins, and the
text around that character shows the fault (`ParseError.Justified`). For a fault of the tokens this
is read off the text between them: `Token.Scanned.place` says where the character of a token
stands, `Token.Scanned.lastIs` and `Token.Scanned.firstIs` what comes before it and after it when
white space is passed over.

The characters are scanned before anything is read, so an error names the first flaw of a text, and
text without a flaw can only fail for its tokens: `Expression.parse_flaw`.
-/

set_option autoImplicit false

namespace TruthTables

open Grammar

namespace Text

/-- `c` is the last character of the text that is no white space. -/
def LastIs (c : Char) (cs : List Char) : Prop :=
  isAsciiWhiteSpace c = false ∧ ∃ init blank, cs = init ++ c :: blank ∧ Blank blank

/-- `c` is the first character of the text that is no white space. -/
def FirstIs (c : Char) (cs : List Char) : Prop :=
  isAsciiWhiteSpace c = false ∧ ∃ blank rest, cs = blank ++ c :: rest ∧ Blank blank

end Text

namespace ParseError

/-- The byte that the error names. -/
def position? : ParseError → Option Nat
  | unbalancedParentheses p => some p
  | emptyExpression => none
  | unsupportedCharacter _ p => some p
  | danglingNegation p => some p
  | missingOperand p => some p
  | unexpectedOperand p => some p
  | nestingTooDeep p => some p

/-- What the error says is true of the text at the byte that it names. -/
def Justified (text : List Char) : ParseError → Prop
  | unbalancedParentheses p => ∃ before c after, Text.Place text p before c after ∧
      (c = '(' ∨ c = ')')
  | emptyExpression => (∀ c ∈ text, Text.isWhiteSpace c = true) ∨
      ∃ before blank after, text = before ++ '(' :: (blank ++ ')' :: after) ∧ Blank blank
  | unsupportedCharacter c p => ∃ before after, Text.Place text p before c after ∧ c ∉ alphabet
  | danglingNegation p => ∃ before after, Text.Place text p before '~' after ∧
      ∀ d ∈ after.head?, d ≠ '(' ∧ isVariableLetter d = false
  | missingOperand p => ∃ before op after,
      Text.Place text p before (Connective.sign op) after ∧
      ((Blank before ∨ Text.LastIs '(' before) ∨
        (Blank after ∨ Text.FirstIs ')' after ∨ ∃ op', Text.FirstIs (Connective.sign op') after))
  | unexpectedOperand p => ∃ before negated c after d,
      Text.Place text p (before ++ negation negated) c after ∧
      (c = '(' ∨ isVariableLetter c = true) ∧
      Text.LastIs d before ∧ (d = ')' ∨ isVariableLetter d = true)
  | nestingTooDeep p => ∃ before c after, Text.Place text p before c after ∧
      (c = '(' ∨ ∃ op, c = Connective.sign op)

/-- A justified error names a byte of the text. -/
theorem Justified.position_lt {text : List Char} {p : Nat} :
    ∀ {e : ParseError}, e.Justified text → e.position? = some p → p < String.utf8Len text
  | unbalancedParentheses _, ⟨_, _, _, hplace, _⟩, rfl => hplace.lt
  | unsupportedCharacter _ _, ⟨_, _, hplace, _⟩, rfl => hplace.lt
  | danglingNegation _, ⟨_, _, hplace, _⟩, rfl => hplace.lt
  | missingOperand _, ⟨_, _, _, hplace, _⟩, rfl => hplace.lt
  | unexpectedOperand _, ⟨_, _, _, _, _, hplace, _⟩, rfl => hplace.lt
  | nestingTooDeep _, ⟨_, _, _, hplace, _⟩, rfl => hplace.lt

theorem Lexical.justified {text : List Char} {e : ParseError} (h : e.Lexical text) :
    e.Justified text := by
  cases e with
  | unsupportedCharacter c p => exact h
  | danglingNegation p =>
    obtain ⟨before, after, hplace, hfollows⟩ := h
    exact ⟨before, after, hplace, Token.operandFollows_eq_false_iff.1 hfollows⟩
  | nestingTooDeep p =>
    obtain ⟨before, after, hplace⟩ := h
    exact ⟨before, '(', after, hplace, .inl rfl⟩
  | unbalancedParentheses p => exact h.elim
  | emptyExpression => exact h.elim
  | missingOperand p => exact h.elim
  | unexpectedOperand p => exact h.elim

end ParseError

namespace Token

/-! ## The character of a token -/

/-- The character that stands at the position of the token. -/
def face : Token → Char
  | opening _ _ => '('
  | closing _ => ')'
  | letter _ x _ => x.letter
  | connective op _ => op.sign

theorem chars_eq (t : Token) : ∃ negated, t.chars = negation negated ++ [t.face] := by
  cases t with
  | opening negated p => exact ⟨negated, rfl⟩
  | closing p => exact ⟨false, rfl⟩
  | letter negated x p => exact ⟨negated, rfl⟩
  | connective op p => exact ⟨false, rfl⟩

theorem isAsciiWhiteSpace_face (t : Token) : Text.isAsciiWhiteSpace t.face = false := by
  cases t with
  | opening negated p => rfl
  | closing p => rfl
  | letter negated x p => exact x.isAsciiWhiteSpace_letter
  | connective op p => cases op <;> rfl

theorem utf8Size_face (t : Token) : t.face.utf8Size = 1 := by
  cases t with
  | opening negated p => rfl
  | closing p => rfl
  | letter negated x p => exact x.utf8Size_letter
  | connective op p => cases op <;> rfl

theorem BeginsOperand.face_eq {t : Token} (h : t.BeginsOperand) :
    t.face = '(' ∨ isVariableLetter t.face = true := by
  cases t with
  | opening negated p => exact .inl rfl
  | letter negated x p => exact .inr x.isVariable
  | closing p => exact h.elim
  | connective op p => exact h.elim

theorem EndsOperand.face_eq {t : Token} (h : t.EndsOperand) :
    t.face = ')' ∨ isVariableLetter t.face = true := by
  cases t with
  | closing p => exact .inl rfl
  | letter negated x p => exact .inr x.isVariable
  | opening negated p => exact h.elim
  | connective op p => exact h.elim

theorem IsOpening.face_eq {t : Token} (h : t.IsOpening) : t.face = '(' := by
  cases t with
  | opening negated p => rfl
  | closing p => exact h.elim
  | letter negated x p => exact h.elim
  | connective op p => exact h.elim

theorem utf8Len_negation (negated : Bool) :
    String.utf8Len (negation negated) = (negation negated).length := by
  cases negated <;> rfl

namespace Scanned

variable {p : Nat} {cs : List Char} {ts us : List Token} {t : Token}

/-- All characters of a text of tokens have one byte. -/
theorem utf8Size_of_mem (h : Scanned p cs ts) : ∀ c ∈ cs, c.utf8Size = 1 := by
  induction h with
  | nil p => exact fun c hc => absurd hc List.not_mem_nil
  | blank hc h ih => exact List.forall_mem_cons.2 ⟨Text.utf8Size_of_ascii hc, ih⟩
  | @token p t cs ts ht h ih =>
    obtain ⟨negated, hchars⟩ := t.chars_eq
    rw [hchars]
    intro c hc
    simp only [List.mem_append, List.mem_singleton] at hc
    obtain (hc | rfl) | hc := hc
    · obtain rfl := eq_of_mem_negation hc
      rfl
    · exact t.utf8Size_face
    · exact ih c hc

theorem utf8Len_eq (h : Scanned p cs ts) : String.utf8Len cs = cs.length :=
  Text.utf8Len_eq_length h.utf8Size_of_mem

/-- The character of a token stands at its position, after its negation. -/
theorem place (h : Scanned 0 cs (ts ++ t :: us)) :
    ∃ before negated after, Text.Place cs t.position (before ++ negation negated) t.face after ∧
      Scanned 0 before ts ∧ Scanned (t.position + 1) after us := by
  obtain ⟨before, after, rfl, hb, ha, hp⟩ := h.split_at
  obtain ⟨negated, hchars⟩ := t.chars_eq
  refine ⟨before, negated, after, ⟨by simp [hchars], ?_⟩, hb, ha⟩
  rw [hchars, List.length_append, List.length_singleton] at hp
  rw [String.utf8Len_append, hb.utf8Len_eq, utf8Len_negation]
  omega

/-- A connective brings no negation. -/
theorem place_connective {op : Connective} (h : Scanned 0 cs (ts ++ .connective op p :: us)) :
    ∃ before after, Text.Place cs p before op.sign after ∧ Scanned 0 before ts ∧
      Scanned (p + 1) after us := by
  obtain ⟨before, after, rfl, hb, ha, hp⟩ := h.split_at
  refine ⟨before, after, ⟨rfl, ?_⟩, hb, ha⟩
  rw [hb.utf8Len_eq]
  simpa [position, chars] using hp.symm

/-- The text of tokens ends with the character of the last one. -/
theorem lastIs (h : Scanned p cs ts) (ht : t ∈ ts.getLast?) : Text.LastIs t.face cs := by
  obtain ⟨init, rfl⟩ := List.getLast?_eq_some_iff.1 ht
  obtain ⟨before, after, rfl, -, ha⟩ := h.split
  obtain ⟨negated, hchars⟩ := t.chars_eq
  exact ⟨t.isAsciiWhiteSpace_face, before ++ negation negated, after, by simp [hchars],
    ha.blank_of_nil⟩

/-- Where no operand begins, the text of tokens begins with the character of the first one. -/
theorem firstIs (h : Scanned p cs ts) (ht : t ∈ ts.head?) (hb : ¬ t.BeginsOperand) :
    Text.FirstIs t.face cs ∧ (t.face = ')' ∨ ∃ op, t.face = Connective.sign op) := by
  obtain ⟨us, rfl⟩ := List.head?_eq_some_iff.1 ht
  obtain ⟨blank, rest, hblank, rfl, -⟩ := h.uncons
  cases t with
  | opening negated q => exact (hb trivial).elim
  | letter negated x q => exact (hb trivial).elim
  | closing q => exact ⟨⟨rfl, blank, rest, rfl, hblank⟩, .inl rfl⟩
  | connective op q =>
    exact ⟨⟨isAsciiWhiteSpace_face (.connective op q), blank, rest, rfl, hblank⟩, .inr ⟨op, rfl⟩⟩

end Scanned

end Token

/-! ## Faults of tokens are seen in the text -/

/-- For tokens, nesting is too deep at a connective. -/
theorem ParseError.Structural.exists_place {text : List Char} {ts : List Token} {p : Nat}
    (h : (nestingTooDeep p).Structural ts) (hs : Token.Scanned 0 text ts) :
    ∃ before op after, Text.Place text p before (Connective.sign op) after := by
  obtain ⟨op, hop⟩ := h
  obtain ⟨us, vs, rfl⟩ := List.append_of_mem hop
  obtain ⟨before, after, hplace, -⟩ := hs.place_connective
  exact ⟨before, op, after, hplace⟩

theorem ParseError.Structural.justified {text : List Char} {ts : List Token} {e : ParseError}
    (h : e.Structural ts) (hs : Token.Scanned 0 text ts) : e.Justified text := by
  cases e with
  | emptyExpression =>
    obtain ⟨before, negated, p, q, after, rfl⟩ := h
    obtain ⟨as, bs, rfl, -, hbs⟩ := hs.split
    obtain ⟨blank, rest, hblank, rfl, -⟩ := hbs.uncons
    refine .inr ⟨as ++ negation negated, blank, rest, ?_, hblank⟩
    simp [Token.chars]
  | missingOperand p =>
    obtain ⟨before, op, after, rfl, hside⟩ := h
    obtain ⟨as, bs, hplace, has, hbs⟩ := hs.place_connective
    refine ⟨as, op, bs, hplace, hside.imp (fun hbefore => ?_) fun hafter => ?_⟩
    · cases hlast : before.getLast? with
      | none =>
        rw [List.getLast?_eq_none_iff.1 hlast] at has
        exact .inl has.blank_of_nil
      | some t =>
        have hface := has.lastIs hlast
        rw [(hbefore t hlast).face_eq] at hface
        exact .inr hface
    · cases hhead : after.head? with
      | none =>
        rw [List.head?_eq_none_iff.1 hhead] at hbs
        exact .inl hbs.blank_of_nil
      | some t =>
        obtain ⟨hfirst, hface | ⟨op', hface⟩⟩ := hbs.firstIs hhead (hafter t hhead)
        · exact .inr (.inl (hface ▸ hfirst))
        · exact .inr (.inr ⟨op', hface ▸ hfirst⟩)
  | unexpectedOperand p =>
    obtain ⟨before, d, t, after, rfl, hd, ht, rfl⟩ := h
    rw [List.append_cons] at hs
    obtain ⟨as, negated, bs, hplace, has, -⟩ := hs.place
    exact ⟨as, negated, t.face, bs, d.face, hplace, ht.face_eq, has.lastIs List.getLast?_concat,
      hd.face_eq⟩
  | nestingTooDeep p =>
    obtain ⟨before, op, after, hplace⟩ := h.exists_place hs
    exact ⟨before, op.sign, after, hplace, .inr ⟨op, rfl⟩⟩
  | unbalancedParentheses p => exact h.elim
  | unsupportedCharacter c p => exact h.elim
  | danglingNegation p => exact h.elim

/-- The parenthesis at fault is one of the tokens. -/
theorem Nesting.exists_parenthesis {ts : List Token} {p : Nat}
    (h : (ofTokens ts).fault? = some p) :
    ∃ before t after, ts = before ++ t :: after ∧ t.position = p ∧
      (t.face = '(' ∨ t.face = ')') := by
  have hd := describes_ofTokens ts
  generalize ofTokens ts = n at h hd
  cases hd with
  | matched hm => cases h
  | @unclosed before after l negated q hm =>
    obtain rfl := Option.some.inj h
    exact ⟨before, _, after, rfl, rfl, .inl rfl⟩
  | @pending before us l after outer unclosed q hm hr =>
    obtain rfl := Option.some.inj h
    exact ⟨before, _, us, rfl, rfl, .inr rfl⟩

/-- **Every rejection is a true local diagnosis**: an error names a byte of the canonical text where
a character begins, and what it says of that character and of those around it is the case. -/
theorem Expression.parse_error_justified {s : String} {e : ParseError} (h : parse s = .error e) :
    e.Justified (canonicalChars s.toList) ∧
      ∀ p, e.position? = some p → p < (canonical s).utf8ByteSize := by
  have hjustified : e.Justified (canonicalChars s.toList) := by
    rcases ofCanonical_eq_error h with
      ⟨rfl, htrim⟩ | hlexical | ⟨ts, hs, hstructural | ⟨p, hp, rfl⟩⟩
    · exact .inl (Text.trim_eq_nil_iff.1 htrim)
    · exact hlexical.justified
    · exact hstructural.justified hs
    · obtain ⟨before, t, after, rfl, rfl, hface⟩ := Nesting.exists_parenthesis hp
      obtain ⟨as, negated, bs, hplace, -⟩ := hs.place
      exact ⟨_, t.face, bs, hplace, hface⟩
  refine ⟨hjustified, fun p hp => ?_⟩
  rw [canonical, String.utf8ByteSize_ofList]
  exact hjustified.position_lt hp

/-- In `p and (q ~(r))`, canonically `p ^ (q ~(r))`, the inner `(` at byte 8 follows on `q`. -/
theorem Expression.justified_unexpected :
    parse "p and (q ~(r))" = .error (.unexpectedOperand 8) ∧
      8 < (canonical "p and (q ~(r))").utf8ByteSize ∧
      ∃ before negated c after d,
        Text.Place (canonicalChars "p and (q ~(r))".toList) 8 (before ++ negation negated) c after ∧
        (c = '(' ∨ isVariableLetter c = true) ∧
        Text.LastIs d before ∧ (d = ')' ∨ isVariableLetter d = true) := by
  have hparse : parse "p and (q ~(r))" = .error (.unexpectedOperand 8) := by rfl
  obtain ⟨hjustified, hlt⟩ := parse_error_justified hparse
  exact ⟨hparse, hlt 8 rfl, hjustified⟩

/-! ## Flaws come first -/

namespace Expression

open Text

/-- Without a flaw, the error is about the tokens or about a parenthesis without a partner. -/
theorem structural_of_not_flawAt {text : List Char} {e : ParseError} (htrim : trim text ≠ [])
    (hclean : ∀ p e, ¬ FlawAt text p e) (h : ofCanonical text = .error e) :
    ∃ ts, Token.Scanned 0 text ts ∧ (e.Structural ts ∨
      ∃ p, (Nesting.ofTokens ts).fault? = some p ∧ e = .unbalancedParentheses p) := by
  rcases scan_or_read_of_error h with ⟨-, hblank⟩ | hscan | ⟨ts, hscan, hread, hne⟩
  · exact absurd hblank htrim
  · obtain ⟨p, hfirst⟩ := Token.firstFlawAt_of_scan hscan
    exact absurd hfirst.flaw (hclean p e)
  · exact ⟨ts, (Token.scanned_of_scan hscan (Nat.zero_le _)).1, Nesting.read_eq_error hne hread⟩

/-- **Flaws come first, and the leftmost one before the others**: text that is not blank is refused
for its first flaw, whatever else is wrong with it; where it has none, no error is about a character
of its own, and nesting is too deep at a connective only. -/
theorem parse_flaw {s : String} (hs : ∃ c ∈ canonicalChars s.toList, isWhiteSpace c = false) :
    let text := canonicalChars s.toList
    ((∃ p e, FlawAt text p e) → ∃ p e, FirstFlawAt text p e ∧ parse s = .error e) ∧
    ((∀ p e, ¬ FlawAt text p e) →
      (∀ c p, parse s ≠ .error (.unsupportedCharacter c p)) ∧
      (∀ p, parse s ≠ .error (.danglingNegation p)) ∧
      ∀ p, parse s = .error (.nestingTooDeep p) →
        ∃ before op after, Place text p before (Connective.sign op) after) := by
  intro text
  have htrim : trim text ≠ [] := by
    intro hblank
    obtain ⟨c, hc, hw⟩ := hs
    rw [trim_eq_nil_iff.1 hblank c hc] at hw
    cases hw
  refine ⟨?_, fun hclean => ⟨fun c p h => ?_, fun p h => ?_, fun p h => ?_⟩⟩
  · rintro ⟨p, e, hflaw⟩
    cases hscan : Token.scan 0 0 false text with
    | ok ts => exact absurd hflaw (Token.not_flawAt_of_scan hscan p e)
    | error e' =>
      obtain ⟨q, hfirst⟩ := Token.firstFlawAt_of_scan hscan
      refine ⟨q, e', hfirst, ?_⟩
      show ofCanonical text = .error e'
      rw [ofCanonical, if_neg htrim, hscan]
  · obtain ⟨ts, -, hstructural | ⟨q, -, he⟩⟩ := structural_of_not_flawAt htrim hclean h
    · exact hstructural
    · cases he
  · obtain ⟨ts, -, hstructural | ⟨q, -, he⟩⟩ := structural_of_not_flawAt htrim hclean h
    · exact hstructural
    · cases he
  · obtain ⟨ts, hscanned, hstructural | ⟨q, -, he⟩⟩ := structural_of_not_flawAt htrim hclean h
    · exact hstructural.exists_place hscanned
    · cases he

/-- In `)a b ~ (é` the negation at byte 5 is the first flaw, though a parenthesis and an operand are
wrong before it; `a b)` has no flaw, only faults of its tokens. -/
theorem flaw_after_stray :
    let text := canonicalChars ")a b ~ (é".toList
    let text' := canonicalChars "a b)".toList
    (∃ c ∈ text, isWhiteSpace c = false) ∧ (∃ c ∈ text', isWhiteSpace c = false) ∧
      FirstFlawAt text 5 (.danglingNegation 5) ∧
      parse ")a b ~ (é" = .error (.danglingNegation 5) ∧
      (∀ p e, ¬ FlawAt text' p e) ∧
      ∀ c p, parse "a b)" ≠ .error (.unsupportedCharacter c p) := by
  intro text text'
  have htext : text = [')', 'a', ' ', 'b', ' ', '~', ' ', '(', 'é'] := by decide +kernel
  have htext' : text' = ['a', ' ', 'b', ')'] := by decide +kernel
  have hs : ∃ c ∈ text, isWhiteSpace c = false := ⟨')', by simp [htext], rfl⟩
  have hs' : ∃ c ∈ text', isWhiteSpace c = false := ⟨'a', by simp [htext'], rfl⟩
  have hparse : parse ")a b ~ (é" = .error (.danglingNegation 5) := by rfl
  have hflaw : FlawAt text 5 (.danglingNegation 5) := by
    have hplace : Place text 5 [')', 'a', ' ', 'b', ' '] '~' [' ', '(', 'é'] := ⟨htext, rfl⟩
    exact .dangling hplace (by simp; decide)
  have hclean : ∀ p e, ¬ FlawAt text' p e := by
    have hscan : Token.scan 0 0 false text' =
        .ok [.letter false ⟨'a', rfl⟩ 0, .letter false ⟨'b', rfl⟩ 2, .closing 3] := by
      rw [htext']
      rfl
    exact Token.not_flawAt_of_scan hscan
  obtain ⟨p, e, hfirst, he⟩ := (parse_flaw hs).1 ⟨_, _, hflaw⟩
  obtain rfl : e = .danglingNegation 5 := Except.error.inj (he.symm.trans hparse)
  have hp : p = 5 := by
    cases hfirst.flaw
    rfl
  rw [hp] at hfirst
  exact ⟨hs, hs', hfirst, hparse, hclean, ((parse_flaw hs').2 hclean).1⟩

end Expression

end TruthTables
