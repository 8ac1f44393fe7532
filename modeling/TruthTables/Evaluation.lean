import TruthTables.Assignment

/-!
# Evaluation

The value of a formula under an assignment that may leave variables without a value. Both operands
are evaluated, the left one first, so the variable that an error names is the one of the leftmost
letter without a value. The flag of a node inverts conjunctions and disjunctions only
(`Connective.apply`).

`Formula.eval` is the value alone, `Formula.observe` hands each node and its value to an observer,
in post-order and up to the first failure; `Formula.observe_snd` says that the two agree.
-/

set_option autoImplicit false

namespace TruthTables

inductive EvalError
  | missingTruthValue (x : Variable)
deriving DecidableEq

def EvalError.message : EvalError → String
  | missingTruthValue x => "No truth value assigned to variable '" ++ toString x ++ "'"

/-- The value of a node with this connective and flag; implications and biconditionals do not heed
the flag. -/
def Connective.apply (negated : Bool) (op : Connective) (p q : Bool) : Bool :=
  match op with
  | and => (p && q) != negated
  | or => (p || q) != negated
  | implies => !p || q
  | iff => p == q

namespace Formula

/-- The value under an assignment. -/
def eval (a : Assignment) : Formula → Except EvalError Bool
  | letter negated x =>
    match a.get? x with
    | some b => .ok (b != negated)
    | none => .error (.missingTruthValue x)
  | binary negated op l r =>
    match l.eval a with
    | .error e => .error e
    | .ok p =>
      match r.eval a with
      | .error e => .error e
      | .ok q => .ok (op.apply negated p q)

variable {σ : Type}

/-- Evaluates and folds `see` over the nodes that get a value, in post-order. -/
def observe (see : σ → Formula → Bool → σ) (a : Assignment) :
    Formula → σ → σ × Except EvalError Bool
  | f@(letter negated x), s =>
    match a.get? x with
    | some b => (see s f (b != negated), .ok (b != negated))
    | none => (s, .error (.missingTruthValue x))
  | f@(binary negated op l r), s =>
    match l.observe see a s with
    | (s, .error e) => (s, .error e)
    | (s, .ok p) =>
      match r.observe see a s with
      | (s, .error e) => (s, .error e)
      | (s, .ok q) => (see s f (op.apply negated p q), .ok (op.apply negated p q))

/-- The nodes with their values, in post-order and up to the first failure, beside the value of the
whole. -/
def trace (a : Assignment) (f : Formula) : Array (Formula × Bool) × Except EvalError Bool :=
  f.observe (fun seen g b => seen.push (g, b)) a #[]

theorem observe_snd (see : σ → Formula → Bool → σ) (a : Assignment) (f : Formula) (s : σ) :
    (f.observe see a s).2 = f.eval a := by
  induction f generalizing s with
  | letter negated x => rw [observe, eval]; cases a.get? x <;> rfl
  | binary negated op l r ihl ihr =>
    rw [observe, eval, ← ihl s]
    rcases l.observe see a s with ⟨s', _ | p⟩
    · rfl
    · dsimp only
      rw [← ihr s']
      rcases r.observe see a s' with ⟨s'', _ | q⟩ <;> rfl

end Formula

end TruthTables
