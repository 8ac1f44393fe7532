import TruthTables.Text
import TruthTables.Formula

/-!
# Expressions

An expression is the formula of a text together with its variables. `Expression.parse` brings the
text into canonical form, splits it into tokens, and folds the outermost level of parentheses from
left to right, where each group is folded by itself at its `)`.

Of several errors the one of a token comes first, then those of the levels in the order in which
they are met; parentheses that do not match are noticed where the outermost level breaks off.
-/

set_option autoImplicit false

namespace TruthTables

/-! ## Spellings and canonical text

A sign may be spelled by a word. Canonical text is what is left when the white space at both ends is
dropped and every word has been replaced by its sign, one spelling after the other over the whole
text: a longer word comes before the shorter ones that it contains. The replacement knows nothing of
tokens, so a word is also found inside a run of letters. `Spelling.replace_cons` and
`Spelling.replace_word_append` are the two steps of a replacement. -/

/-- The word `head :: tail` stands for `sign`. -/
structure Spelling where
  head : Char
  tail : List Char
  sign : Char
deriving DecidableEq

namespace Spelling

def word (s : Spelling) : List Char := s.head :: s.tail

/-- Skips some characters, then replaces. -/
def replaceAfter (s : Spelling) : Nat → List Char → List Char
  | _, [] => []
  | skip + 1, _ :: rest => s.replaceAfter skip rest
  | 0, c :: rest =>
    if s.word.isPrefixOf (c :: rest) then s.sign :: s.replaceAfter s.tail.length rest
    else c :: s.replaceAfter 0 rest

/-- Replaces the occurrences of the word from left to right, none overlapping another. -/
def replace (s : Spelling) (cs : List Char) : List Char := s.replaceAfter 0 cs

theorem replaceAfter_eq (s : Spelling) (skip : Nat) (cs : List Char) :
    s.replaceAfter skip cs = s.replace (cs.drop skip) := by
  induction cs generalizing skip with
  | nil => cases skip <;> rfl
  | cons c rest ih =>
    cases skip with
    | zero => rfl
    | succ skip => rw [replaceAfter, ih, List.drop_succ_cons]

@[simp] theorem replace_nil (s : Spelling) : s.replace [] = [] := rfl

theorem replace_word_append (s : Spelling) (rest : List Char) :
    s.replace (s.word ++ rest) = s.sign :: s.replace rest := by
  rw [word, List.cons_append, replace, replaceAfter, if_pos (by simp [word]), replaceAfter_eq]
  simp

theorem replace_cons (s : Spelling) {c : Char} {rest : List Char} (h : ¬ s.word <+: c :: rest) :
    s.replace (c :: rest) = c :: s.replace rest := by
  rw [replace, replaceAfter, if_neg (by simpa using h)]
  rfl

/-- The spellings in formulas, in the order in which they are replaced. -/
def all : List Spelling :=
  [⟨'o', ['r'], 'v'⟩, ⟨'|', ['|'], 'v'⟩, ⟨'a', ['n', 'd'], '^'⟩, ⟨'&', ['&'], '^'⟩,
    ⟨'n', ['o', 't', ' '], '~'⟩, ⟨'n', ['o', 't'], '~'⟩, ⟨'!', [], '~'⟩,
    ⟨'<', ['-', '>'], '-'⟩, ⟨'-', ['>'], '>'⟩]

end Spelling

/-- The text in signs alone. -/
def canonicalChars (cs : List Char) : List Char :=
  Spelling.all.foldl (fun text s => s.replace text) (Text.trim cs)

def canonical (s : String) : String := String.ofList (canonicalChars s.toList)

/-! ## Parse errors

Why a text is not a formula. Positions are offsets into the canonical text, counted in bytes of its
UTF-8 form. -/

/-- How deep parentheses may nest, and how high the tree of a formula may grow. -/
def maxNesting : Nat := 256

inductive ParseError
  /-- A `)` that closes nothing, or a `(` that is never closed. -/
  | unbalancedParentheses (position : Nat)
  /-- No operand in the text, or none between two parentheses. -/
  | emptyExpression
  | unsupportedCharacter (character : Char) (position : Nat)
  /-- A `~` that is attached neither to a variable nor to a `(`. -/
  | danglingNegation (position : Nat)
  /-- A connective without an operand on one of its sides. -/
  | missingOperand (position : Nat)
  /-- An operand directly after another one. -/
  | unexpectedOperand (position : Nat)
  /-- The `(` or the connective that goes beyond `maxNesting`. -/
  | nestingTooDeep (position : Nat)
deriving DecidableEq

namespace ParseError

def message : ParseError → String
  | unbalancedParentheses p => "Unbalanced parentheses at position " ++ toString p
  | emptyExpression => "Expression is empty"
  | unsupportedCharacter c p =>
    "Unsupported character " ++ Text.quoteChar c ++ " at position " ++ toString p
  | danglingNegation p =>
    "Negation at position " ++ toString p ++ " must be followed by a variable or '('"
  | missingOperand p => "Operator at position " ++ toString p ++ " is missing an operand"
  | unexpectedOperand p =>
    "Unexpected operand at position " ++ toString p ++ ", expected an operator"
  | nestingTooDeep p =>
    "Expression nests deeper than " ++ toString maxNesting ++ " levels at position " ++ toString p

end ParseError

/-! ## Tokens

Canonical text is a sequence of parentheses, variables and connectives with white space between
them. A negation belongs to the variable or the `(` that directly follows it. `Token.scan` finds the
tokens or the leftmost character that can belong to none: one outside the alphabet, a negation
attached to nothing, or a `(` below `maxNesting` open ones. -/

inductive Token
  | opening (negated : Bool) (position : Nat)
  | closing (position : Nat)
  | letter (negated : Bool) (x : Variable) (position : Nat)
  | connective (op : Connective) (position : Nat)
deriving DecidableEq

namespace Token

/-- Where the token stands; for a negated one this is not the place of the negation. -/
def position : Token → Nat
  | opening _ p => p
  | closing p => p
  | letter _ _ p => p
  | connective _ p => p

def mentions : Token → Variable → Bool
  | letter _ y _, x => x == y
  | _, _ => false

/-- Whether an operand starts here, so that a negation may stand directly before. -/
def operandFollows : List Char → Bool
  | [] => false
  | c :: _ => c == '(' || isVariableLetter c

/-- The tokens of the text from `position` on, where `depth` parentheses are open and, if `negated`,
the character before is a negation. A `)` too many leaves the depth at zero. -/
def scan (position depth : Nat) (negated : Bool) : List Char → Except ParseError (List Token)
  | [] => .ok []
  | c :: rest =>
    let next := position + c.utf8Size
    if c = '~' then
      if operandFollows rest then scan next depth true rest
      else .error (.danglingNegation position)
    else if c = '(' then
      if depth < maxNesting then
        (opening negated position :: ·) <$> scan next (depth + 1) false rest
      else .error (.nestingTooDeep position)
    else if c = ')' then
      (closing position :: ·) <$> scan next (depth - 1) false rest
    else
      match Connective.ofSign? c, Variable.ofChar? c with
      | some op, _ => (connective op position :: ·) <$> scan next depth false rest
      | none, some x => (letter negated x position :: ·) <$> scan next depth false rest
      | none, none =>
        if Text.isAsciiWhiteSpace c then scan next depth false rest
        else .error (.unsupportedCharacter c position)

end Token

/-! ## Levels of parentheses

A level is what stands between two parentheses that belong together, or in the whole text: a row of
variables, connectives and groups, where a group holds a level of its own.

`Nesting.ofTokens` finds the outermost level by reading the tokens from the right: a `)` starts the
level of a group, and the `(` that belongs to it ends this level. If the parentheses do not match,
the level reaches up to the first one without a partner, `Nesting.fault?`: to the first `)` that
closes nothing, or else to the first `(` that is never closed. -/

inductive Level
  | nil
  | letter (negated : Bool) (x : Variable) (position : Nat) (rest : Level)
  | connective (op : Connective) (position : Nat) (rest : Level)
  | group (negated : Bool) (position : Nat) (body rest : Level)
deriving DecidableEq, Inhabited

/-- What is known of a text when all tokens from some place on have been read. -/
structure Nesting where
  /-- The level at that place. -/
  current : Level
  /-- The `)` on the right without a partner so far, each with the level that goes on after it. -/
  pending : List (Nat × Level)
  /-- The leftmost `(` so far that is never closed. -/
  unclosed : Option Nat
deriving DecidableEq

namespace Nesting

/-- Before any token. -/
def empty : Nesting := ⟨.nil, [], none⟩

/-- Takes one more token on the left. -/
def prepend (n : Nesting) : Token → Nesting
  | .letter negated x p => { n with current := .letter negated x p n.current }
  | .connective op p => { n with current := .connective op p n.current }
  | .closing p => { n with current := .nil, pending := (p, n.current) :: n.pending }
  | .opening negated p =>
    match n.pending with
    | [] => ⟨.nil, [], some p⟩
    | (_, after) :: outer =>
      { n with current := .group negated p n.current after, pending := outer }

def ofTokens (tokens : List Token) : Nesting := tokens.foldr (fun t n => n.prepend t) empty

/-- The parenthesis at which the outermost level breaks off. -/
def fault? (n : Nesting) : Option Nat :=
  match n.pending with
  | (p, _) :: _ => some p
  | [] => n.unclosed

end Nesting

/-! ## Chains

The operands and connectives of one level are folded from left to right, without precedence. A chain
is what has been folded so far: at most a left operand, a connective and a right operand, each only
after the one before it. The connective is applied when the next one comes or the level ends, and
that is when a missing right operand or a tree beyond `maxNesting` is noticed. -/

/-- A formula with the height of its tree. -/
structure Operand where
  formula : Formula
  height : Nat
deriving DecidableEq

inductive Chain
  | empty
  | operand (left : Operand)
  | pending (left : Operand) (op : Connective) (position : Nat)
  | complete (left : Operand) (op : Connective) (position : Nat) (right : Operand)
deriving DecidableEq

namespace Operand

def letter (negated : Bool) (x : Variable) : Operand := ⟨.letter negated x, 1⟩

def negateIf (negated : Bool) (o : Operand) : Operand :=
  { o with formula := o.formula.negateIf negated }

/-- Applies the connective at `position`. -/
def join (op : Connective) (position : Nat) (l r : Operand) : Except ParseError Operand :=
  let height := max l.height r.height + 1
  if height ≤ maxNesting then .ok ⟨.binary false op l.formula r.formula, height⟩
  else .error (.nestingTooDeep position)

end Operand

namespace Chain

def pushOperand (position : Nat) (o : Operand) : Chain → Except ParseError Chain
  | empty => .ok (operand o)
  | operand _ => .error (.unexpectedOperand position)
  | pending l op p => .ok (complete l op p o)
  | complete _ _ _ _ => .error (.unexpectedOperand position)

def pushConnective (position : Nat) (op : Connective) : Chain → Except ParseError Chain
  | empty => .error (.missingOperand position)
  | operand l => .ok (pending l op position)
  | pending _ _ p => .error (.missingOperand p)
  | complete l op' p r => (l.join op' p r).map fun o => pending o op position

/-- The operand that the whole chain amounts to. -/
def finish : Chain → Except ParseError Operand
  | empty => .error .emptyExpression
  | operand l => .ok l
  | pending _ _ p => .error (.missingOperand p)
  | complete l op p r => l.join op p r

end Chain

/-! ## Folding -/

/-- Appends the operands and connectives of a level to a chain. -/
def Level.fold : Level → Chain → Except ParseError Chain
  | nil, chain => .ok chain
  | letter negated x p rest, chain =>
    match chain.pushOperand p (.letter negated x) with
    | .error e => .error e
    | .ok chain => rest.fold chain
  | connective op p rest, chain =>
    match chain.pushConnective p op with
    | .error e => .error e
    | .ok chain => rest.fold chain
  | group negated p body rest, chain =>
    match body.fold .empty with
    | .error e => .error e
    | .ok inner =>
      match inner.finish with
      | .error e => .error e
      | .ok o =>
        match chain.pushOperand p (o.negateIf negated) with
        | .error e => .error e
        | .ok chain => rest.fold chain

/-- The operand that the outermost level amounts to. -/
def Nesting.read (n : Nesting) : Except ParseError Operand :=
  match n.current.fold .empty with
  | .error e => .error e
  | .ok chain =>
    match n.fault? with
    | some p => .error (.unbalancedParentheses p)
    | none => chain.finish

/-! ## Expressions -/

structure Expression where
  root : Formula
  vars : List Variable
deriving DecidableEq

namespace Expression

/-- The variables that occur among the tokens, in ascending order. -/
def varsOf (tokens : List Token) : List Variable :=
  Variable.all.filter fun x => tokens.any fun t => t.mentions x

@[simp] theorem mem_varsOf {tokens : List Token} {x : Variable} :
    x ∈ varsOf tokens ↔ ∃ t ∈ tokens, t.mentions x = true := by
  simp [varsOf, Variable.mem_all]

/-- Reads canonical text. -/
def ofCanonical (text : List Char) : Except ParseError Expression :=
  if Text.trim text = [] then .error .emptyExpression
  else
    match Token.scan 0 0 false text with
    | .error e => .error e
    | .ok tokens =>
      match (Nesting.ofTokens tokens).read with
      | .error e => .error e
      | .ok o => .ok ⟨o.formula, varsOf tokens⟩

/-- Reads text in any spelling. -/
def parse (s : String) : Except ParseError Expression := ofCanonical (canonicalChars s.toList)

/-- The label of the whole formula. -/
def label (e : Expression) : String := e.root.label

instance : ToString Expression := ⟨label⟩

end Expression

end TruthTables
