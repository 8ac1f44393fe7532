/-!
# Formulas

A variable is a lower-case letter of the ASCII alphabet other than `v`, which is kept for the
disjunction; variables are ordered as their letters, and `Variable.all` lists the 25 of them in that
order. A connective has a sign that stands for it in canonical text (`Connective.sign`) and a token
that stands for it in labels (`Connective.token`).

A formula is a tree of connectives over variables in which every node carries its own negation flag,
so that a negation is a property of a node and not a node. `Formula.subformulas` lists the nodes in
the order in which they are evaluated, `Formula.vars` the variables in ascending order.

A column of a truth table is headed by the label of a formula. In it a binary operand that is not
negated stands in parentheses; a negated one brings its own, `~( … )`; the outermost formula stands
bare. `Formula.written` states this form, `Formula.label` produces it in one pass:
`Formula.toList_label`.
-/

set_option autoImplicit false

namespace TruthTables

/-! ## Variables -/

/-- A lower-case ASCII letter that is not taken by the disjunction sign. -/
def isVariableLetter (c : Char) : Bool := 97 ≤ c.toNat && c.toNat ≤ 122 && c != 'v'

structure Variable where
  letter : Char
  isVariable : isVariableLetter letter = true
deriving DecidableEq

namespace Variable

/-- The letter that no variable may have. -/
def reserved : Char := 'v'

def ofChar? (c : Char) : Option Variable :=
  if h : isVariableLetter c = true then some ⟨c, h⟩ else none

instance : Inhabited Variable := ⟨⟨'a', by decide⟩⟩

instance : Hashable Variable := ⟨fun x => x.letter.val.toUInt64⟩

instance : ToString Variable := ⟨fun x => x.letter.toString⟩

theorem ofChar?_letter (x : Variable) : ofChar? x.letter = some x := by
  simp [ofChar?, x.isVariable]

theorem ofChar?_eq_some_iff {c : Char} {x : Variable} : ofChar? c = some x ↔ x.letter = c := by
  constructor
  · intro h
    unfold ofChar? at h
    split at h
    · rw [← Option.some.inj h]
    · cases h
  · rintro rfl
    exact x.ofChar?_letter

theorem ofChar?_eq_none_iff {c : Char} : ofChar? c = none ↔ isVariableLetter c = false := by
  simp [ofChar?]

/-! ## Order -/

instance : LT Variable := ⟨fun x y => x.letter.toNat < y.letter.toNat⟩

theorem lt_def {x y : Variable} : x < y ↔ x.letter.toNat < y.letter.toNat := Iff.rfl

instance (x y : Variable) : Decidable (x < y) := inferInstanceAs (Decidable (_ < (_ : Nat)))

theorem ext_toNat {x y : Variable} (h : x.letter.toNat = y.letter.toNat) : x = y := by
  cases x; cases y
  simpa using Char.toNat_inj.1 h

theorem lt_irrefl (x : Variable) : ¬ x < x := Nat.lt_irrefl _

theorem lt_trans {x y z : Variable} (h : x < y) (h' : y < z) : x < z := Nat.lt_trans h h'

theorem lt_or_eq_or_gt (x y : Variable) : x < y ∨ x = y ∨ y < x := by
  rcases Nat.lt_trichotomy x.letter.toNat y.letter.toNat with h | h | h
  · exact .inl h
  · exact .inr (.inl (ext_toNat h))
  · exact .inr (.inr h)

/-! ## The alphabet -/

/-- Every variable, in ascending order. -/
def all : List Variable := "abcdefghijklmnopqrstuwxyz".toList.filterMap ofChar?

theorem length_all : all.length = 25 := by decide

theorem pairwise_all : all.Pairwise (· < ·) := by decide

theorem mem_all (x : Variable) : x ∈ all := by
  obtain ⟨c, hc⟩ := x
  have bounds : 97 ≤ c.toNat ∧ c.toNat ≤ 122 ∧ c ≠ 'v' := by
    simpa [isVariableLetter, and_assoc] using hc
  rw [all, List.mem_filterMap]
  refine ⟨c, ?_, ofChar?_letter ⟨c, hc⟩⟩
  have letters : ∀ n < 123, 97 ≤ n → Char.ofNat n ≠ 'v' →
      Char.ofNat n ∈ "abcdefghijklmnopqrstuwxyz".toList := by decide
  have := letters c.toNat (by omega) bounds.1
  rw [Char.ofNat_toNat] at this
  exact this bounds.2.2

end Variable

/-! ## Connectives -/

inductive Connective
  | and
  | or
  | implies
  | iff
deriving DecidableEq, Repr

namespace Connective

/-- The sign of a connective in canonical text. -/
def sign : Connective → Char
  | and => '^'
  | or => 'v'
  | implies => '>'
  | iff => '-'

/-- The sign of a connective in a label. -/
def token : Connective → String
  | and => "^"
  | or => "v"
  | implies => "->"
  | iff => "<->"

def ofSign? (c : Char) : Option Connective :=
  if c = '^' then some and
  else if c = 'v' then some or
  else if c = '>' then some implies
  else if c = '-' then some iff
  else none

@[simp] theorem ofSign?_sign (op : Connective) : ofSign? op.sign = some op := by
  cases op <;> rfl

theorem ofSign?_eq_some_iff {c : Char} {op : Connective} :
    ofSign? c = some op ↔ op.sign = c := by
  constructor
  · intro h
    grind [ofSign?, sign]
  · rintro rfl
    exact ofSign?_sign op

end Connective

/-! ## Trees -/

inductive Formula
  | letter (negated : Bool) (x : Variable)
  | binary (negated : Bool) (op : Connective) (left right : Formula)
deriving DecidableEq, Inhabited

namespace Formula

/-- A plain variable. -/
def ofVariable (x : Variable) : Formula := letter false x

/-- The node's own flag. -/
def isNegated : Formula → Bool
  | letter negated _ => negated
  | binary negated _ _ _ => negated

/-- Flips the node's own flag, so that two negations cancel. -/
def negate : Formula → Formula
  | letter negated x => letter (!negated) x
  | binary negated op l r => binary (!negated) op l r

/-- Negates once or not at all. -/
def negateIf (negated : Bool) (f : Formula) : Formula := if negated then f.negate else f

/-- The number of nodes. -/
def size : Formula → Nat
  | letter _ _ => 1
  | binary _ _ l r => l.size + r.size + 1

/-- The number of nodes on the longest branch; negation adds nothing. -/
def height : Formula → Nat
  | letter _ _ => 1
  | binary _ _ l r => max l.height r.height + 1

/-- The nodes in post-order: left, right, then the node itself. -/
def subformulas : Formula → List Formula
  | f@(letter _ _) => [f]
  | f@(binary _ _ l r) => l.subformulas ++ r.subformulas ++ [f]

/-- Whether the variable occurs in the formula. -/
def mentions : Formula → Variable → Bool
  | letter _ y, x => x == y
  | binary _ _ l r, x => l.mentions x || r.mentions x

/-- The variables that occur in the formula, in ascending order. -/
def vars (f : Formula) : List Variable := Variable.all.filter f.mentions

@[simp] theorem isNegated_negate (f : Formula) : f.negate.isNegated = !f.isNegated := by
  cases f <;> rfl

@[simp] theorem negate_negate (f : Formula) : f.negate.negate = f := by
  cases f <;> simp [negate]

@[simp] theorem height_negate (f : Formula) : f.negate.height = f.height := by
  cases f <;> rfl

@[simp] theorem mentions_negate (f : Formula) : f.negate.mentions = f.mentions := by
  cases f <;> funext x <;> rfl

@[simp] theorem length_subformulas (f : Formula) : f.subformulas.length = f.size := by
  induction f with
  | letter => rfl
  | binary _ _ l r ihl ihr => simp [subformulas, size, ihl, ihr, Nat.add_assoc]

@[simp] theorem mem_vars {f : Formula} {x : Variable} :
    x ∈ f.vars ↔ f.mentions x = true := by
  simp [vars, Variable.mem_all]

theorem pairwise_vars (f : Formula) : f.vars.Pairwise (· < ·) :=
  Variable.pairwise_all.filter _

/-! ## The written form -/

/-- The written form of an operand, from the written form that it has when it stands bare. -/
def enclosed : Formula → List Char → List Char
  | binary false _ _ _, written => '(' :: (written ++ [')'])
  | _, written => written

/-- The characters of the label. -/
def written : Formula → List Char
  | letter false x => [x.letter]
  | letter true x => ['~', x.letter]
  | binary negated op l r =>
    let body := l.enclosed l.written ++ ' ' :: (op.token.toList ++ ' ' :: r.enclosed r.written)
    if negated then '~' :: '(' :: (body ++ [')']) else body

/-! ## Labels -/

/-- Writes the formula before `rest`, as an operand or bare. -/
def writeOnto : Formula → (operand : Bool) → (rest : List Char) → List Char
  | letter false x, _, rest => x.letter :: rest
  | letter true x, _, rest => '~' :: x.letter :: rest
  | binary negated op l r, operand, rest =>
    let body (rest : List Char) :=
      l.writeOnto true (' ' :: (op.token.toList ++ ' ' :: r.writeOnto true rest))
    if negated then '~' :: '(' :: body (')' :: rest)
    else if operand then '(' :: body (')' :: rest)
    else body rest

def label (f : Formula) : String := String.ofList (f.writeOnto false [])

instance : ToString Formula := ⟨label⟩

theorem writeOnto_eq (f : Formula) (operand : Bool) (rest : List Char) :
    f.writeOnto operand rest = (if operand then f.enclosed f.written else f.written) ++ rest := by
  induction f generalizing operand rest with
  | letter negated x => cases negated <;> cases operand <;> rfl
  | binary negated op l r ihl ihr =>
    cases negated <;> cases operand <;> simp [writeOnto, written, enclosed, ihl, ihr]

@[simp] theorem toList_label (f : Formula) : f.label.toList = f.written := by
  simp [label, writeOnto_eq]

end Formula

end TruthTables
