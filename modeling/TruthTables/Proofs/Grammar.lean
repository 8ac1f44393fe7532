import TruthTables.Expression

/-!
# The grammar of canonical text

`IsLevel text f`: canonical text that is a level of parentheses, and the tree that it means. A level
is a row of operands with connectives between them, folded from the left without precedence; an
operand is a variable or a level in parentheses, either of them after a negation or not, which flips
the flag of its root; white space may stand anywhere but after a negation.

`nesting` is how deep the parentheses of a text are nested; the grammar does not bound it, nor the
height of the tree.
-/

set_option autoImplicit false

namespace TruthTables.Grammar

/-- A run of ASCII white space, possibly empty. -/
def Blank (cs : List Char) : Prop := ∀ c ∈ cs, Text.isAsciiWhiteSpace c = true

/-- The negation sign, or nothing. -/
def negation (negated : Bool) : List Char := if negated then ['~'] else []

/-- Joins operands from left to right, without precedence. -/
def leftFold (first : Formula) (items : List (Connective × Formula)) : Formula :=
  items.foldl (fun left item => .binary false item.1 left item.2) first

/-- The tree of a group: a negation before it flips the flag of the root. -/
def toggle (negated : Bool) : Formula → Formula
  | .letter flag x => .letter (flag != negated) x
  | .binary flag op left right => .binary (flag != negated) op left right

mutual

/-- A variable or a group. -/
inductive IsOperand : List Char → Formula → Prop
  | letter (negated : Bool) (x : Variable) :
    IsOperand (negation negated ++ [x.letter]) (.letter negated x)
  | group (negated : Bool) {body : List Char} {f : Formula} (h : IsLevel body f) :
    IsOperand (negation negated ++ '(' :: (body ++ [')'])) (toggle negated f)

/-- What may follow the first operand of a level: more operands, each after its connective. -/
inductive IsTail : List Char → List (Connective × Formula) → Prop
  | nil {blank : List Char} (hb : Blank blank) : IsTail blank []
  | cons {before after text rest : List Char} {op : Connective} {f : Formula}
    {items : List (Connective × Formula)} (hb : Blank before) (ha : Blank after)
    (ho : IsOperand text f) (ht : IsTail rest items) :
    IsTail (before ++ op.sign :: (after ++ (text ++ rest))) ((op, f) :: items)

/-- What may stand between two parentheses, or be a whole text. -/
inductive IsLevel : List Char → Formula → Prop
  | mk {blank text rest : List Char} {f : Formula} {items : List (Connective × Formula)}
    (hb : Blank blank) (ho : IsOperand text f) (ht : IsTail rest items) :
    IsLevel (blank ++ (text ++ rest)) (leftFold f items)

end

/-- The deepest that parentheses are nested from here on, where `depth` of them are open. A `)` too
many leaves the depth at zero. -/
def deepest (depth : Nat) : List Char → Nat
  | [] => depth
  | c :: rest =>
    if c = '(' then deepest (depth + 1) rest
    else if c = ')' then max depth (deepest (depth - 1) rest)
    else deepest depth rest

/-- How deep the parentheses of a text are nested. -/
def nesting (text : List Char) : Nat := deepest 0 text

theorem toggle_eq_negateIf (negated : Bool) (f : Formula) :
    toggle negated f = f.negateIf negated := by
  cases negated <;> cases f <;> simp [toggle, Formula.negateIf, Formula.negate]

@[simp] theorem leftFold_nil (first : Formula) : leftFold first [] = first := rfl

@[simp] theorem leftFold_cons (first : Formula) (op : Connective) (f : Formula)
    (items : List (Connective × Formula)) :
    leftFold first ((op, f) :: items) = leftFold (.binary false op first f) items := rfl

/-! ## White space -/

theorem Blank.nil : Blank [] := fun _ h => absurd h List.not_mem_nil

theorem Blank.append {cs ds : List Char} (hc : Blank cs) (hd : Blank ds) : Blank (cs ++ ds) :=
  fun c h => (List.mem_append.1 h).elim (hc c) (hd c)

/-- Operands may be added after a level's last one. -/
theorem IsTail.append {text text' : List Char} {items items' : List (Connective × Formula)}
    (h : IsTail text items) (h' : IsTail text' items') :
    IsTail (text ++ text') (items ++ items') :=
  match h with
  | .nil hb => by
    cases h' with
    | nil hb' => exact .nil (hb.append hb')
    | cons hb' ha ho ht =>
      rw [← List.append_assoc]
      exact .cons (hb.append hb') ha ho ht
  | @IsTail.cons before after text rest op f items hb ha ho ht => by
    have htail := @IsTail.cons _ _ _ _ op _ _ hb ha ho (ht.append h')
    simpa using htail

/-- White space may be added after a level's last operand. -/
theorem IsTail.append_blank {rest blank : List Char} {items : List (Connective × Formula)}
    (h : IsTail rest items) (hb : Blank blank) : IsTail (rest ++ blank) items := by
  have happend := h.append (.nil hb)
  rwa [List.append_nil] at happend

/-- White space may be added around a level. -/
theorem IsLevel.pad {text before after : List Char} {f : Formula} (h : IsLevel text f)
    (hb : Blank before) (ha : Blank after) : IsLevel (before ++ (text ++ after)) f := by
  obtain ⟨hb', ho, ht⟩ := h
  have := IsLevel.mk (hb.append hb') ho (ht.append_blank ha)
  simpa using this

/-- An operand alone is a level. -/
theorem IsOperand.isLevel {text : List Char} {f : Formula} (h : IsOperand text f) :
    IsLevel text f := by
  have := IsLevel.mk .nil h (.nil .nil)
  simpa using this

/-! ## Nesting -/

theorem le_deepest (depth : Nat) (cs : List Char) : depth ≤ deepest depth cs := by
  induction cs generalizing depth with
  | nil => exact Nat.le_refl _
  | cons c rest ih =>
    rw [deepest]
    split
    · exact Nat.le_of_succ_le (ih (depth + 1))
    · split
      · exact Nat.le_max_left _ _
      · exact ih depth

end TruthTables.Grammar
