import TruthTables.Proofs.Flaws
import TruthTables.Proofs.Reading

/-!
# Why text is refused

Canonical text is refused because it is blank, or for a character (`ParseError.Lexical`), or for the
tokens (`ParseError.Structural`), or for a parenthesis without a partner (`Nesting.fault?`):
`Expression.ofCanonical_eq_error`.

A structural fault is told by tokens that stand side by side, although a chain notices it only when
the next connective comes or the level ends. What carries the proof is the invariant
`Chain.Follows`: how the tokens that a chain has taken end. `Chain.reads_pushOperand`,
`Chain.reads_pushConnective` and `Chain.reads_finish` are its steps, `Level.reads_fold` is the run.
-/

set_option autoImplicit false

namespace TruthTables

open Grammar

/-! ## Characters -/

/-- The error is about a character, at the place that it names. -/
def ParseError.Lexical (text : List Char) : ParseError → Prop
  | unsupportedCharacter c p => ∃ before after, Text.Place text p before c after ∧ c ∉ alphabet
  | danglingNegation p => ∃ before after, Text.Place text p before '~' after ∧
      Token.operandFollows after = false
  | nestingTooDeep p => ∃ before after, Text.Place text p before '(' after
  | _ => False

theorem Text.FlawAt.lexical {text : List Char} {p : Nat} {e : ParseError} (h : FlawAt text p e) :
    e.Lexical text := by
  cases h with
  | foreign hplace hc => exact ⟨_, _, hplace, hc⟩
  | dangling hplace hd => exact ⟨_, _, hplace, Token.operandFollows_eq_false_iff.2 hd⟩
  | deep hplace hd => exact ⟨_, _, hplace⟩

/-! ## Tokens -/

namespace Token

/-- The token begins an operand. -/
def BeginsOperand : Token → Prop
  | opening _ _ => True
  | letter _ _ _ => True
  | _ => False

/-- The token ends an operand. -/
def EndsOperand : Token → Prop
  | closing _ => True
  | letter _ _ _ => True
  | _ => False

def IsOpening : Token → Prop
  | opening _ _ => True
  | _ => False

end Token

/-- The error is about tokens that stand side by side, or about the height of a tree. -/
def ParseError.Structural (ts : List Token) : ParseError → Prop
  | emptyExpression => ∃ before negated p q after,
      ts = before ++ .opening negated p :: .closing q :: after
  | missingOperand p => ∃ before op after, ts = before ++ .connective op p :: after ∧
      ((∀ t ∈ before.getLast?, t.IsOpening) ∨ ∀ t ∈ after.head?, ¬ t.BeginsOperand)
  | unexpectedOperand p => ∃ before d t after, ts = before ++ d :: t :: after ∧ d.EndsOperand ∧
      t.BeginsOperand ∧ t.position = p
  | nestingTooDeep p => ∃ op, .connective op p ∈ ts
  | _ => False

/-- Reading gives a result with the property, or fails for the tokens. -/
def Reads {α : Type} (ts : List Token) (P : α → Prop) : Except ParseError α → Prop
  | .ok a => P a
  | .error e => e.Structural ts

theorem Reads.bind {α β : Type} {ts : List Token} {P : α → Prop} {Q : β → Prop}
    {x : Except ParseError α} {f : α → Except ParseError β} (h : Reads ts P x)
    (hf : ∀ a, P a → Reads ts Q (f a)) : Reads ts Q (x.bind f) := by
  cases x with
  | error e => exact h
  | ok a => exact hf a h

namespace Chain

/-- How the tokens that the chain has taken end, where those of its level begin after `start`. -/
def Follows (start before : List Token) : Chain → Prop
  | empty => before = start
  | operand _ => ∃ d ∈ before.getLast?, d.EndsOperand
  | pending _ op p => .connective op p ∈ before.getLast?
  | complete _ op p _ => (∃ d ∈ before.getLast?, d.EndsOperand) ∧ .connective op p ∈ before

variable {c : Chain} {start before : List Token}

/-- A second operand is noticed at once. -/
theorem unexpected_of_follows {us : List Token} {t : Token}
    (hd : ∃ d ∈ before.getLast?, d.EndsOperand) (ht : t ∈ us.head?) (hb : t.BeginsOperand)
    (after : List Token) :
    (ParseError.unexpectedOperand t.position).Structural (before ++ us ++ after) := by
  obtain ⟨d, hd, hend⟩ := hd
  obtain ⟨init, rfl⟩ := List.getLast?_eq_some_iff.1 hd
  obtain ⟨rest, rfl⟩ := List.head?_eq_some_iff.1 ht
  exact ⟨init, d, t, rest ++ after, by simp, hend, hb, rfl⟩

/-- An operand is pushed with the tokens `us` of which it is made. -/
theorem reads_pushOperand (hc : c.Follows start before) (us after : List Token) {t d : Token}
    (ht : t ∈ us.head?) (hb : t.BeginsOperand) (hd : d ∈ us.getLast?) (he : d.EndsOperand)
    (o : Operand) :
    Reads (before ++ us ++ after) (Follows start (before ++ us)) (c.pushOperand t.position o) := by
  have hlast : ∃ d ∈ (before ++ us).getLast?, d.EndsOperand :=
    ⟨d, List.mem_getLast?_append_of_mem_getLast? hd, he⟩
  cases c with
  | empty => exact hlast
  | operand l => exact unexpected_of_follows hc ht hb after
  | pending l op p =>
    exact ⟨hlast, List.mem_append_left us (List.mem_of_getLast? hc)⟩
  | complete l op p r => exact unexpected_of_follows hc.1 ht hb after

/-- A connective is pushed where an operand ends; the one before it is applied only now. -/
theorem reads_pushConnective (hc : c.Follows start before)
    (hs : ∀ t ∈ start.getLast?, t.IsOpening) (op : Connective) (p : Nat) (after : List Token) :
    Reads (before ++ [.connective op p] ++ after) (Follows start (before ++ [.connective op p]))
      (c.pushConnective p op) := by
  have hlast : .connective op p ∈ (before ++ [Token.connective op p]).getLast? :=
    List.getLast?_concat
  cases c with
  | empty =>
    obtain rfl : before = start := hc
    exact ⟨before, op, after, by simp, .inl hs⟩
  | operand l => exact hlast
  | pending l op' q =>
    obtain ⟨init, rfl⟩ := List.getLast?_eq_some_iff.1 hc
    refine ⟨init, op', .connective op p :: after, by simp, .inr fun t ht hb => ?_⟩
    obtain rfl := Option.some.inj ht
    exact hb
  | complete l op' q r =>
    rw [pushConnective, Operand.join]
    split
    · exact hlast
    · refine ⟨op', ?_⟩
      simp [hc.2]

/-- At the end of a level a connective may still want its operand. -/
theorem reads_finish (hc : c.Follows start before) {after : List Token}
    (ha : ∀ t ∈ after.head?, ¬ t.BeginsOperand)
    (hempty : before = start → ParseError.emptyExpression.Structural (before ++ after)) :
    Reads (before ++ after) (fun _ => True) c.finish := by
  cases c with
  | empty => exact hempty hc
  | operand l => trivial
  | pending l op p =>
    obtain ⟨init, rfl⟩ := List.getLast?_eq_some_iff.1 hc
    exact ⟨init, op, after, by simp, .inr ha⟩
  | complete l op p r =>
    rw [finish, Operand.join]
    split
    · trivial
    · exact ⟨op, List.mem_append_left after hc.2⟩

end Chain

namespace Level

theorem isOpening_getLast? {before : List Token} {negated : Bool} {p : Nat} :
    ∀ t ∈ (before ++ [Token.opening negated p]).getLast?, t.IsOpening := by
  intro t ht
  rw [List.getLast?_concat] at ht
  obtain rfl := Option.some.inj ht
  trivial

/-- The level between two parentheses has a result, or fails for the tokens. -/
theorem reads_result {before us after : List Token} {negated : Bool} {p q : Nat} {body : Level}
    (h : Reads (before ++ [.opening negated p] ++ us ++ .closing q :: after)
      (Chain.Follows (before ++ [.opening negated p]) (before ++ [.opening negated p] ++ us))
      (body.fold .empty)) :
    Reads (before ++ [.opening negated p] ++ us ++ .closing q :: after) (fun _ => True)
      (body.result .empty) := by
  refine h.bind fun c hc => Chain.reads_finish hc (fun t ht hbegin => ?_) fun hempty => ?_
  · obtain rfl := Option.some.inj ht
    exact hbegin
  · obtain rfl : us = [] := by simpa using hempty
    exact ⟨before, negated, p, q, after, by simp⟩

/-- A level is folded with its tokens, or it fails for them and those around them. -/
theorem reads_fold {ts : List Token} {l : Level} (hm : Matched ts l) {c : Chain}
    {start before : List Token} (hs : ∀ t ∈ start.getLast?, t.IsOpening)
    (hc : c.Follows start before) (after : List Token) :
    Reads (before ++ ts ++ after) (Chain.Follows start (before ++ ts)) (l.fold c) := by
  induction hm generalizing c start before after with
  | nil =>
    rw [List.append_nil]
    exact hc
  | @letter ts l negated x p h ih =>
    rw [fold_letter]
    have hpush := Chain.reads_pushOperand hc [.letter negated x p] (ts ++ after) rfl trivial rfl
      trivial (.letter negated x)
    simp only [List.append_assoc, List.singleton_append] at hpush ⊢
    refine hpush.bind fun c' hc' => ?_
    simpa using ih hs hc' after
  | @connective ts l op p h ih =>
    rw [fold_connective]
    have hpush := Chain.reads_pushConnective hc hs op p (ts ++ after)
    simp only [List.append_assoc, List.singleton_append] at hpush ⊢
    refine hpush.bind fun c' hc' => ?_
    simpa using ih hs hc' after
  | @group ts us body l negated p q hb h ihb ih =>
    -- the body is a level of its own, which begins after the `(`
    let inside : List Token := before ++ [.opening negated p]
    have hfull : before ++ .opening negated p :: (us ++ .closing q :: ts) ++ after =
        inside ++ us ++ .closing q :: (ts ++ after) := by simp [inside]
    have hresult : Reads (inside ++ us ++ .closing q :: (ts ++ after)) (fun _ => True)
        (body.result .empty) := by
      have hstart : Chain.Follows inside inside .empty := rfl
      exact reads_result (ihb isOpening_getLast? hstart _)
    rw [fold_group, hfull]
    refine hresult.bind fun o _ => ?_
    let tokens : List Token := .opening negated p :: (us ++ [.closing q])
    have hhead : .opening negated p ∈ tokens.head? := rfl
    have hlast : .closing q ∈ tokens.getLast? := by
      show _ ∈ (.opening negated p :: us ++ [Token.closing q]).getLast?
      exact List.getLast?_concat
    have hpush := Chain.reads_pushOperand hc tokens (ts ++ after) hhead trivial hlast trivial
      (o.negateIf negated)
    have hsame : before ++ tokens ++ (ts ++ after) =
        inside ++ us ++ .closing q :: (ts ++ after) := by simp [inside, tokens]
    rw [hsame] at hpush
    refine hpush.bind fun c' hc' => ?_
    have hrest := ih hs hc' after
    simpa [inside, tokens] using hrest

end Level

/-! ## Reading -/

namespace Nesting

/-- The outermost level is made of the first tokens, and of all if no parenthesis is at fault. -/
theorem exists_matched (ts : List Token) :
    ∃ us after, ts = us ++ after ∧ Level.Matched us (ofTokens ts).current ∧
      ((ofTokens ts).fault? = none → after = []) := by
  have hd := describes_ofTokens ts
  generalize ofTokens ts = n at hd
  cases hd with
  | matched h => exact ⟨ts, [], (List.append_nil ts).symm, h, fun _ => rfl⟩
  | unclosed negated p h => exact ⟨_, _, rfl, h, fun hf => by cases hf⟩
  | pending q h hr => exact ⟨_, _, rfl, h, fun hf => by cases hf⟩

theorem read_eq_error {ts : List Token} {e : ParseError} (hne : ts ≠ [])
    (h : (ofTokens ts).read = .error e) :
    e.Structural ts ∨ ∃ p, (ofTokens ts).fault? = some p ∧ e = .unbalancedParentheses p := by
  obtain ⟨us, after, hts, hm, hafter⟩ := exists_matched ts
  have hstart : Chain.Follows [] [] .empty := rfl
  have hfold := Level.reads_fold hm (fun t ht => by cases ht) hstart after
  rw [List.nil_append, ← hts] at hfold
  unfold read at h
  cases hc : (ofTokens ts).current.fold .empty with
  | error e' =>
    rw [hc] at h hfold
    cases h
    exact .inl hfold
  | ok c =>
    rw [hc] at h hfold
    cases hf : (ofTokens ts).fault? with
    | some p =>
      simp only [hf] at h
      cases h
      exact .inr ⟨p, rfl, rfl⟩
    | none =>
      simp only [hf] at h
      obtain rfl := hafter hf
      rw [List.append_nil] at hts
      have hlast : ∀ t ∈ ([] : List Token).head?, ¬ t.BeginsOperand := fun t ht => by cases ht
      have hfinish := Chain.reads_finish hfold hlast fun hempty => absurd (hts.trans hempty) hne
      rw [h, List.append_nil, ← hts] at hfinish
      exact .inl hfinish

end Nesting

/-- Text that is refused is blank, or its scan fails, or its tokens cannot be read. -/
theorem Expression.scan_or_read_of_error {text : List Char} {e : ParseError}
    (h : ofCanonical text = .error e) :
    (e = .emptyExpression ∧ Text.trim text = []) ∨ Token.scan 0 0 false text = .error e ∨
      ∃ ts, Token.scan 0 0 false text = .ok ts ∧ (Nesting.ofTokens ts).read = .error e ∧
        ts ≠ [] := by
  unfold ofCanonical at h
  split at h
  · next htrim =>
    cases h
    exact .inl ⟨rfl, htrim⟩
  · next htrim =>
    cases hscan : Token.scan 0 0 false text with
    | error e' =>
      rw [hscan] at h
      cases h
      exact .inr (.inl rfl)
    | ok ts =>
      rw [hscan] at h
      have hs := (Token.scanned_of_scan hscan (Nat.zero_le _)).1
      have hne : ts ≠ [] := by
        rintro rfl
        exact htrim (Text.trim_eq_nil_iff.2 fun c hc =>
          Text.isWhiteSpace_of_ascii (hs.blank_of_nil c hc))
      cases hread : (Nesting.ofTokens ts).read with
      | error e' =>
        simp only [hread] at h
        cases h
        exact .inr (.inr ⟨ts, rfl, hread, hne⟩)
      | ok o =>
        simp only [hread] at h
        cases h

/-- Text that is refused is blank, or the error is about a character, about tokens, or about a
parenthesis without a partner. -/
theorem Expression.ofCanonical_eq_error {text : List Char} {e : ParseError}
    (h : ofCanonical text = .error e) :
    (e = .emptyExpression ∧ Text.trim text = []) ∨ e.Lexical text ∨
      ∃ ts, Token.Scanned 0 text ts ∧ (e.Structural ts ∨
        ∃ p, (Nesting.ofTokens ts).fault? = some p ∧ e = .unbalancedParentheses p) := by
  rcases scan_or_read_of_error h with hblank | hscan | ⟨ts, hscan, hread, hne⟩
  · exact .inl hblank
  · obtain ⟨p, hfirst⟩ := Token.firstFlawAt_of_scan hscan
    exact .inr (.inl hfirst.flaw.lexical)
  · have hs := (Token.scanned_of_scan hscan (Nat.zero_le _)).1
    exact .inr (.inr ⟨ts, hs, Nesting.read_eq_error hne hread⟩)

end TruthTables
