import TruthTables.Proofs.Diagnosis

/-!
# White space is never read

Reading does not look at positions, it only hands them on: when the positions of the tokens are
moved, the position in an error moves with them and nothing else changes (`Nesting.read_move`). To
delete the white space of a text is to move its tokens to the places that their characters have then
(`Token.Scanned.compact`). So two texts that are equal but for white space are read alike, and their
errors name the same character: `Nesting.read_of_compact_eq`.
-/

set_option autoImplicit false

namespace TruthTables

open Grammar

/-! ## Moving positions -/

namespace Token

/-- The token at another position. -/
def move (f : Nat → Nat) : Token → Token
  | opening negated p => opening negated (f p)
  | closing p => closing (f p)
  | letter negated x p => letter negated x (f p)
  | connective op p => connective op (f p)

variable (f : Nat → Nat) (t : Token)

@[simp] theorem position_move : (t.move f).position = f t.position := by cases t <;> rfl

@[simp] theorem chars_move : (t.move f).chars = t.chars := by cases t <;> rfl

@[simp] theorem mentions_move : (t.move f).mentions = t.mentions := by
  cases t <;> funext x <;> rfl

end Token

namespace ParseError

/-- The error about another position. -/
def move (f : Nat → Nat) : ParseError → ParseError
  | unbalancedParentheses p => unbalancedParentheses (f p)
  | emptyExpression => emptyExpression
  | unsupportedCharacter c p => unsupportedCharacter c (f p)
  | danglingNegation p => danglingNegation (f p)
  | missingOperand p => missingOperand (f p)
  | unexpectedOperand p => unexpectedOperand (f p)
  | nestingTooDeep p => nestingTooDeep (f p)

/-- What the error says, wherever it says it. -/
def kind (e : ParseError) : ParseError := e.move fun _ => 0

@[simp] theorem position?_move (f : Nat → Nat) (e : ParseError) :
    (e.move f).position? = e.position?.map f := by
  cases e <;> rfl

@[simp] theorem kind_move (f : Nat → Nat) (e : ParseError) : (e.move f).kind = e.kind := by
  cases e <;> rfl

/-- An outcome whose error is about another position. -/
def moveOutcome {α : Type} (f : Nat → Nat) (g : α → α) :
    Except ParseError α → Except ParseError α
  | .ok a => .ok (g a)
  | .error e => .error (e.move f)

theorem moveOutcome_bind {α β : Type} {f : Nat → Nat} {g : α → α} {g' : β → β}
    {k k' : α → Except ParseError β} (h : ∀ a, k' (g a) = moveOutcome f g' (k a))
    (x : Except ParseError α) :
    (moveOutcome f g x).bind k' = moveOutcome f g' (x.bind k) := by
  cases x with
  | error e => rfl
  | ok a => exact h a

end ParseError

open ParseError (moveOutcome moveOutcome_bind)

namespace Chain

/-- The chain with its connective at another position. -/
def move (f : Nat → Nat) : Chain → Chain
  | empty => empty
  | operand l => operand l
  | pending l op p => pending l op (f p)
  | complete l op p r => complete l op (f p) r

variable (f : Nat → Nat) (c : Chain)

theorem join_move (op : Connective) (p : Nat) (l r : Operand) :
    l.join op (f p) r = moveOutcome f id (l.join op p r) := by
  simp only [Operand.join]
  split <;> rfl

theorem pushOperand_move (p : Nat) (o : Operand) :
    (c.move f).pushOperand (f p) o = moveOutcome f (move f) (c.pushOperand p o) := by
  cases c <;> rfl

theorem pushConnective_move (p : Nat) (op : Connective) :
    (c.move f).pushConnective (f p) op = moveOutcome f (move f) (c.pushConnective p op) := by
  cases c with
  | empty => rfl
  | operand l => rfl
  | pending l op' q => rfl
  | complete l op' q r =>
    rw [move, pushConnective, pushConnective, join_move]
    cases l.join op' q r <;> rfl

theorem finish_move : (c.move f).finish = moveOutcome f id c.finish := by
  cases c with
  | empty => rfl
  | operand l => rfl
  | pending l op p => rfl
  | complete l op p r => exact join_move f op p l r

end Chain

namespace Level

/-- The level with its tokens at other positions. -/
def move (f : Nat → Nat) : Level → Level
  | nil => nil
  | letter negated x p rest => letter negated x (f p) (rest.move f)
  | connective op p rest => connective op (f p) (rest.move f)
  | group negated p body rest => group negated (f p) (body.move f) (rest.move f)

theorem result_move_of_fold {f : Nat → Nat} {l : Level} {c : Chain}
    (h : (l.move f).fold (c.move f) = moveOutcome f (Chain.move f) (l.fold c)) :
    (l.move f).result (c.move f) = moveOutcome f id (l.result c) := by
  rw [result, result, h]
  exact moveOutcome_bind (fun c => c.finish_move f) _

theorem fold_move (f : Nat → Nat) (l : Level) (c : Chain) :
    (l.move f).fold (c.move f) = moveOutcome f (Chain.move f) (l.fold c) := by
  induction l generalizing c with
  | nil => rfl
  | letter negated x p rest ih =>
    rw [move, fold_letter, fold_letter, Chain.pushOperand_move]
    exact moveOutcome_bind ih _
  | connective op p rest ih =>
    rw [move, fold_connective, fold_connective, Chain.pushConnective_move]
    exact moveOutcome_bind ih _
  | group negated p body rest ihb ih =>
    have hbody : (body.move f).result .empty = moveOutcome f id (body.result .empty) :=
      result_move_of_fold (ihb .empty)
    rw [move, fold_group, fold_group, hbody]
    refine moveOutcome_bind (fun o => ?_) _
    rw [id, Chain.pushOperand_move]
    exact moveOutcome_bind ih _

end Level

namespace Nesting

def move (f : Nat → Nat) (n : Nesting) : Nesting :=
  ⟨n.current.move f, n.pending.map fun q => (f q.1, q.2.move f), n.unclosed.map f⟩

variable (f : Nat → Nat)

theorem prepend_move (n : Nesting) (t : Token) :
    (n.move f).prepend (t.move f) = (n.prepend t).move f := by
  cases t with
  | letter negated x p => rfl
  | connective op p => rfl
  | closing p => rfl
  | opening negated p =>
    obtain ⟨current, pending, unclosed⟩ := n
    cases pending <;> rfl

theorem ofTokens_move (ts : List Token) :
    ofTokens (ts.map (Token.move f)) = (ofTokens ts).move f := by
  induction ts with
  | nil => rfl
  | cons t ts ih =>
    rw [ofTokens, List.map_cons, List.foldr_cons, ← ofTokens, ih, prepend_move]
    rfl

theorem fault?_move (n : Nesting) : (n.move f).fault? = n.fault?.map f := by
  obtain ⟨current, pending, unclosed⟩ := n
  cases pending <;> rfl

theorem read_eq_bind (n : Nesting) :
    n.read = (n.current.fold .empty).bind fun c =>
      match n.fault? with
      | some p => .error (.unbalancedParentheses p)
      | none => c.finish := by
  unfold read
  cases n.current.fold .empty <;> rfl

/-- Reading hands the positions on. -/
theorem read_move (n : Nesting) : (n.move f).read = moveOutcome f id n.read := by
  have hfold : (n.move f).current.fold .empty =
      moveOutcome f (Chain.move f) (n.current.fold .empty) := n.current.fold_move f .empty
  rw [read_eq_bind, read_eq_bind, hfold]
  refine moveOutcome_bind (fun c => ?_) _
  rw [fault?_move, Chain.finish_move]
  cases n.fault? <;> rfl

end Nesting

/-! ## Text without white space -/

namespace Text

/-- The text without its white space. -/
def compact (cs : List Char) : List Char := cs.filter fun c => !isAsciiWhiteSpace c

@[simp] theorem compact_append (cs ds : List Char) :
    compact (cs ++ ds) = compact cs ++ compact ds := List.filter_append ..

theorem compact_cons_of_blank {c : Char} (h : isAsciiWhiteSpace c = true) (cs : List Char) :
    compact (c :: cs) = compact cs := by simp [compact, h]

theorem compact_cons {c : Char} (h : isAsciiWhiteSpace c = false) (cs : List Char) :
    compact (c :: cs) = c :: compact cs := by simp [compact, h]

/-- How many characters at the front of the text, white space left out, come before index `i`. -/
def rank (cs : List Char) (i : Nat) : Nat := (compact (cs.take i)).length

theorem rank_append (cs ds : List Char) (i : Nat) :
    rank (cs ++ ds) (cs.length + i) = (compact cs).length + rank ds i := by
  rw [rank, List.take_length_add_append, compact_append, List.length_append, rank]

theorem rank_length (cs ds : List Char) : rank (cs ++ ds) cs.length = (compact cs).length := by
  rw [rank, List.take_left]

end Text

open Text (compact rank)

namespace Token

theorem compact_negation (negated : Bool) : compact (negation negated) = negation negated := by
  cases negated <;> rfl

theorem compact_chars (t : Token) : compact t.chars = t.chars := by
  obtain ⟨negated, hchars⟩ := t.chars_eq
  rw [hchars, Text.compact_append, compact_negation, Text.compact_cons t.isAsciiWhiteSpace_face]
  rfl

/-- Without white space, the tokens stand where their characters come to stand. -/
theorem Scanned.compact {p k : Nat} {cs : List Char} {ts : List Token} {f : Nat → Nat}
    (h : Scanned p cs ts) (hf : ∀ i, f (p + i) = k + rank cs i) :
    Scanned k (Text.compact cs) (ts.map (Token.move f)) := by
  induction h generalizing k with
  | nil p => exact .nil k
  | @blank p c cs ts hc h ih =>
    rw [Text.compact_cons_of_blank hc]
    refine ih fun i => ?_
    have hi := hf (i + 1)
    rw [rank, List.take_succ_cons, Text.compact_cons_of_blank hc, ← rank] at hi
    rw [← hi, Nat.add_assoc, Nat.add_comm 1]
  | @token p t cs ts ht h ih =>
    have hposition : f t.position + 1 = k + t.chars.length := by
      obtain ⟨negated, hchars⟩ := t.chars_eq
      have hi := hf (negation negated).length
      rw [hchars, List.append_assoc, Text.rank_length, compact_negation] at hi
      rw [hchars, List.length_append, List.length_singleton] at ht ⊢
      rw [show t.position = p + (negation negated).length by omega, hi, Nat.add_assoc]
    rw [Text.compact_append, compact_chars, ← chars_move f t, List.map_cons]
    refine .token (by rw [position_move, chars_move, hposition]) (ih fun i => ?_)
    have hi := hf (t.chars.length + i)
    rw [Text.rank_append, compact_chars] at hi
    rw [position_move, ht, hposition, Nat.add_assoc, Nat.add_assoc, hi]

/-- A token is found by counting the characters before it that are no white space. -/
theorem Scanned.exists_rank_eq {cs : List Char} {ts : List Token} {t : Token}
    (h : Scanned 0 cs ts) (ht : t ∈ ts) :
    ∃ before after, Text.Place cs t.position before t.face after ∧
      rank cs t.position = (Text.compact before).length := by
  obtain ⟨us, vs, rfl⟩ := List.append_of_mem ht
  obtain ⟨before, negated, after, hplace, hbefore, -⟩ := h.place
  have hlength : (before ++ negation negated).length = t.position := by
    rw [← hplace.offset_eq, String.utf8Len_append, hbefore.utf8Len_eq, utf8Len_negation,
      List.length_append]
  refine ⟨before ++ negation negated, after, hplace, ?_⟩
  rw [← hlength, hplace.text_eq, Text.rank_length]

theorem varsOf_move (f : Nat → Nat) (ts : List Token) :
    Expression.varsOf (ts.map (move f)) = Expression.varsOf ts := by
  simp only [Expression.varsOf, List.any_map, Function.comp_def, mentions_move]

end Token

/-! ## Errors name tokens -/

/-- An error for tokens names the position of one of them. -/
theorem ParseError.Structural.exists_token {ts : List Token} {e : ParseError} {p : Nat}
    (h : e.Structural ts) (hp : e.position? = some p) : ∃ t ∈ ts, t.position = p := by
  cases e with
  | missingOperand q =>
    cases hp
    obtain ⟨before, op, after, rfl, -⟩ := h
    exact ⟨.connective op p, by simp, rfl⟩
  | unexpectedOperand q =>
    cases hp
    obtain ⟨before, d, t, after, rfl, -, -, ht⟩ := h
    exact ⟨t, by simp, ht⟩
  | nestingTooDeep q =>
    cases hp
    obtain ⟨op, hop⟩ := h
    exact ⟨.connective op p, hop, rfl⟩
  | emptyExpression => cases hp
  | unbalancedParentheses q => exact h.elim
  | unsupportedCharacter c q => exact h.elim
  | danglingNegation q => exact h.elim

theorem Nesting.exists_token_of_read {ts : List Token} {e : ParseError} {p : Nat}
    (h : (ofTokens ts).read = .error e) (hp : e.position? = some p) :
    ∃ t ∈ ts, t.position = p := by
  have hne : ts ≠ [] := by
    rintro rfl
    cases h
    cases hp
  rcases read_eq_error hne h with hstructural | ⟨q, hq, rfl⟩
  · exact hstructural.exists_token hp
  · cases hp
    obtain ⟨before, t, after, rfl, ht, -⟩ := exists_parenthesis hq
    exact ⟨t, by simp, ht⟩

/-! ## Two texts -/

/-- At byte `p` of one text and byte `q` of the other stands the same character of the text that
both are without white space. -/
def Text.SameCharacter (text : List Char) (p : Nat) (text' : List Char) (q : Nat) : Prop :=
  ∃ before c after before' after', Place text p before c after ∧ Place text' q before' c after' ∧
    isAsciiWhiteSpace c = false ∧ compact before = compact before' ∧ compact after = compact after'

theorem Text.sameCharacter_of_length {text text' before before' after after' : List Char} {p q : Nat}
    {c c' : Char} (h : Place text p before c after) (h' : Place text' q before' c' after')
    (hc : isAsciiWhiteSpace c = false) (hc' : isAsciiWhiteSpace c' = false)
    (heq : compact text = compact text') (hlen : (compact before).length = (compact before').length) :
    SameCharacter text p text' q := by
  have hcompact := heq
  rw [h.text_eq, h'.text_eq, compact_append, compact_append, compact_cons hc, compact_cons hc']
    at hcompact
  obtain ⟨hbefore, hrest⟩ := List.append_inj hcompact hlen
  obtain ⟨rfl, hafter⟩ := List.cons.inj hrest
  exact ⟨before, c, after, before', after', h, h', hc, hbefore, hafter⟩

/-- The errors are of one kind, and those that name a position name the same character. -/
structure ParseError.SameFault (text text' : List Char) (e e' : ParseError) : Prop where
  kind_eq : e.kind = e'.kind
  place : ∀ p, e.position? = some p →
    ∃ q, e'.position? = some q ∧ Text.SameCharacter text p text' q

/-- **White space is never read**: two texts whose characters are sound and that are equal but for
white space are read alike. Either both give the same tree, with the same height and variables, or
both fail for one reason, at the same character. -/
theorem Nesting.read_of_compact_eq {text text' : List Char} {ts ts' : List Token}
    (h : Token.scan 0 0 false text = .ok ts) (h' : Token.scan 0 0 false text' = .ok ts')
    (heq : compact text = compact text') :
    (∀ o, (ofTokens ts).read = .ok o →
      (ofTokens ts').read = .ok o ∧ Expression.varsOf ts = Expression.varsOf ts') ∧
    (∀ e, (ofTokens ts).read = .error e →
      ∃ e', (ofTokens ts').read = .error e' ∧ ParseError.SameFault text text' e e') := by
  have hs := (Token.scanned_of_scan h (Nat.zero_le _)).1
  have hs' := (Token.scanned_of_scan h' (Nat.zero_le _)).1
  -- both texts have the tokens of the text without white space
  have hmove : ts.map (Token.move (rank text)) = ts'.map (Token.move (rank text')) := by
    have hcompact : Token.Scanned 0 (compact text) (ts.map (Token.move (rank text))) :=
      hs.compact fun i => by rw [Nat.zero_add, Nat.zero_add]
    have hcompact' : Token.Scanned 0 (compact text') (ts'.map (Token.move (rank text'))) :=
      hs'.compact fun i => by rw [Nat.zero_add, Nat.zero_add]
    rw [heq] at hcompact
    exact hcompact.unique hcompact'
  have hread : moveOutcome (rank text) id (ofTokens ts).read =
      moveOutcome (rank text') id (ofTokens ts').read := by
    rw [← read_move, ← read_move, ← ofTokens_move, ← ofTokens_move, hmove]
  have hvars : Expression.varsOf ts = Expression.varsOf ts' := by
    rw [← Token.varsOf_move (rank text), hmove, Token.varsOf_move]
  refine ⟨fun o ho => ?_, fun e he => ?_⟩
  · rw [ho] at hread
    cases ho' : (ofTokens ts').read with
    | error e' => rw [ho'] at hread; cases hread
    | ok o' => rw [ho'] at hread; cases hread; exact ⟨rfl, hvars⟩
  · rw [he] at hread
    cases he' : (ofTokens ts').read with
    | ok o' => rw [he'] at hread; cases hread
    | error e' =>
      rw [he'] at hread
      have hmoved : e.move (rank text) = e'.move (rank text') := Except.error.inj hread
      refine ⟨e', rfl, ?_, fun p hp => ?_⟩
      · rw [← e.kind_move (rank text), hmoved, e'.kind_move]
      · have hposition := congrArg ParseError.position? hmoved
        rw [ParseError.position?_move, ParseError.position?_move, hp] at hposition
        obtain ⟨q, hq, hrank⟩ := Option.map_eq_some_iff.1 hposition.symm
        obtain ⟨t, ht, rfl⟩ := exists_token_of_read he hp
        obtain ⟨t', ht', rfl⟩ := exists_token_of_read he' hq
        obtain ⟨before, after, hplace, hlen⟩ := hs.exists_rank_eq ht
        obtain ⟨before', after', hplace', hlen'⟩ := hs'.exists_rank_eq ht'
        refine ⟨t'.position, hq, Text.sameCharacter_of_length hplace hplace'
          t.isAsciiWhiteSpace_face t'.isAsciiWhiteSpace_face heq ?_⟩
        rw [← hlen, ← hlen', hrank]

/-- In `( a ^ b ) c` and in `(a^b)c` it is the `c` that has no connective before it. -/
theorem Nesting.read_spaced_group :
    let text := "( a ^ b ) c".toList
    let text' := "(a^b)c".toList
    ∃ ts ts', Token.scan 0 0 false text = .ok ts ∧ Token.scan 0 0 false text' = .ok ts' ∧
      compact text = compact text' ∧ (ofTokens ts).read = .error (.unexpectedOperand 10) ∧
      (ofTokens ts').read = .error (.unexpectedOperand 5) ∧ Text.SameCharacter text 10 text' 5 := by
  intro text text'
  let a : Variable := ⟨'a', rfl⟩
  let b : Variable := ⟨'b', rfl⟩
  let c : Variable := ⟨'c', rfl⟩
  have h : Token.scan 0 0 false text = .ok [.opening false 0, .letter false a 2,
      .connective .and 4, .letter false b 6, .closing 8, .letter false c 10] := by rfl
  have h' : Token.scan 0 0 false text' = .ok [.opening false 0, .letter false a 1,
      .connective .and 2, .letter false b 3, .closing 4, .letter false c 5] := by rfl
  have heq : compact text = compact text' := by decide +kernel
  obtain ⟨e', he', hsame⟩ := (read_of_compact_eq h h' heq).2 (.unexpectedOperand 10) rfl
  cases he'
  obtain ⟨q, hq, hcharacter⟩ := hsame.place 10 rfl
  cases hq
  exact ⟨_, _, h, h', heq, rfl, rfl, hcharacter⟩

end TruthTables
