import TruthTables.Proofs.Folding

/-!
# Chains in three slots

A level can also be folded in place, in three slots that are filled and emptied one by one. Nothing
in their type keeps a slot from being filled before the one to its left, or an operand from carrying
a height that is not its own, so every call is checked: an operand when it is handed on, the slots
after the call, whether or not it fails. `Chain.slots` lays out a chain in slots; on them the
checked calls do what they do on chains, and no check fails: `InPlace.push_slots`,
`InPlace.connect_slots` and `InPlace.finish_slots`.
-/

set_option autoImplicit false

namespace TruthTables

instance (o : Operand) : Decidable o.Accurate := inferInstanceAs (Decidable (_ ∧ _))

namespace InPlace

/-- What may be found in the three slots of a level. -/
structure Slots where
  left : Option Operand := none
  pending : Option (Connective × Nat) := none
  right : Option Operand := none
deriving DecidableEq

/-- A promise that is not kept. -/
inductive Breach
  /-- Calls are nested deeper than there is room for. -/
  | calls
  /-- A difference below zero. -/
  | underflow
  /-- A place outside of the text. -/
  | outside (position : Nat)
  /-- A character that belongs to no token. -/
  | foreign (c : Char) (position : Nat)
  /-- A slot that is filled before the one to its left. -/
  | gap (slots : Slots)
  /-- An operand with the height of another tree, or a tree beyond `maxNesting`. -/
  | height (o : Operand)
deriving DecidableEq

/-- Why reading stops without an operand. -/
inductive Halt
  | refused (e : ParseError)
  | broken (b : Breach)
deriving DecidableEq

/-- Goes on only if the promise is kept. -/
def promise (p : Prop) [Decidable p] (b : Breach) : Except Halt Unit :=
  if p then .ok () else .error (.broken b)

/-- A difference that must not go below zero. -/
def minus (m n : Nat) : Except Halt Nat :=
  if n ≤ m then .ok (m - n) else .error (.broken .underflow)

/-- Refuses what is an error. -/
def lift {α : Type} (x : Except ParseError α) : Except Halt α := x.mapError .refused

theorem lift_map {α β : Type} (x : Except ParseError α) (f : α → β) :
    lift (x.map f) = lift x >>= fun a => pure (f a) := by
  cases x <;> rfl

/-- An operand that is handed on. -/
def handOn (o : Operand) : Except Halt Operand := do
  promise o.Accurate (.height o)
  return o

namespace Slots

/-- No slot is filled before the one to its left. -/
def Filled (s : Slots) : Prop :=
  (s.right.isSome = true → s.pending.isSome = true) ∧
    (s.pending.isSome = true → s.left.isSome = true)

instance (s : Slots) : Decidable s.Filled := inferInstanceAs (Decidable (_ ∧ _))

/-- Puts an operand into the slot whose turn it is. -/
def pushOperand (o : Operand) (position : Nat) (s : Slots) : Except Halt Unit × Slots :=
  match s.pending, s.left, s.right with
  | none, none, _ => (.ok (), { s with left := some o })
  | some _, _, none => (.ok (), { s with right := some o })
  | _, _, _ => (.error (.refused (.unexpectedOperand position)), s)

/-- Takes out the operands, one after the other, and applies a connective to them. -/
def reduce (op : Connective) (position : Nat) (s : Slots) : Except Halt Operand × Slots :=
  match s.left, s.right with
  | none, _ => (.error (.refused (.missingOperand position)), s)
  | some _, none => (.error (.refused (.missingOperand position)), { s with left := none })
  | some l, some r =>
    (lift (l.join op position r) >>= handOn, { s with left := none, right := none })

/-- Applies the connective before and puts the next one in its place. -/
def pushConnective (op : Connective) (position : Nat) (s : Slots) : Except Halt Unit × Slots :=
  match s.pending with
  | none =>
    if s.left.isNone then (.error (.refused (.missingOperand position)), s)
    else (.ok (), { s with pending := some (op, position) })
  | some (op', p) =>
    match { s with pending := none }.reduce op' p with
    | (.error h, s) => (.error h, s)
    | (.ok o, s) => (.ok (), { s with left := some o, pending := some (op, position) })

/-- What a call leaves behind, also if it fails. -/
def settle : Except Halt Unit × Slots → Except Halt Slots
  | (outcome, s) => do
    promise s.Filled (.gap s)
    outcome
    return s

/-- The checked call with an operand. -/
def push (o : Operand) (position : Nat) (s : Slots) : Except Halt Slots := do
  let o ← handOn o
  settle (s.pushOperand o position)

/-- The checked call with a connective. -/
def connect (op : Connective) (position : Nat) (s : Slots) : Except Halt Slots :=
  settle (s.pushConnective op position)

/-- What the slots amount to at the end of a level. -/
def finish (s : Slots) : Except Halt Operand :=
  match s.pending with
  | some (op, p) => ({ s with pending := none }.reduce op p).1
  | none =>
    match s.left with
    | some o => handOn o
    | none => .error (.refused .emptyExpression)

end Slots

end InPlace

/-! ## Accuracy -/

theorem Operand.Accurate.join {l r o : Operand} {op : Connective} {p : Nat}
    (h : l.join op p r = .ok o) (hl : l.Accurate) (hr : r.Accurate) : o.Accurate := by
  simp only [Operand.join] at h
  split at h
  · next hle =>
    cases h
    refine ⟨?_, hle⟩
    simp only [Formula.height, hl.1, hr.1]
  · cases h

namespace Chain

theorem Accurate.pushOperand {c c' : Chain} {o : Operand} {p : Nat}
    (h : c.pushOperand p o = .ok c') (hc : c.Accurate) (ho : o.Accurate) : c'.Accurate := by
  cases c with
  | empty => cases h; exact ho
  | operand l => cases h
  | pending l op q => cases h; exact ⟨hc, ho⟩
  | complete l op q r => cases h

theorem Accurate.pushConnective {c c' : Chain} {op : Connective} {p : Nat}
    (h : c.pushConnective p op = .ok c') (hc : c.Accurate) : c'.Accurate := by
  cases c with
  | empty => cases h
  | operand l => cases h; exact hc
  | pending l op' q => cases h
  | complete l op' q r =>
    rw [Chain.pushConnective] at h
    cases hjoin : l.join op' q r with
    | error e => rw [hjoin] at h; cases h
    | ok o =>
      rw [hjoin] at h
      cases h
      exact hc.1.join hjoin hc.2

end Chain

namespace Level

/-- What a level amounts to has its own height, within the bound. -/
theorem accurate_of_result {l : Level} {c : Chain} {o : Operand} (h : l.result c = .ok o)
    (hc : c.Accurate) : o.Accurate := by
  have hbounded := l.bounded_result hc
  generalize l.tree? c.stage = t at hbounded
  rw [h] at hbounded
  cases hbounded with
  | tree hle => exact ⟨rfl, hle⟩

theorem accurate_of_fold {l : Level} {c c' : Chain} (h : l.fold c = .ok c') (hc : c.Accurate) :
    c'.Accurate := by
  induction l generalizing c with
  | nil => cases h; exact hc
  | letter negated x p rest ih =>
    rw [fold_letter] at h
    cases hpush : c.pushOperand p (.letter negated x) with
    | error e => rw [hpush] at h; cases h
    | ok d =>
      rw [hpush] at h
      exact ih h (hc.pushOperand hpush (Operand.accurate_letter negated x))
  | connective op p rest ih =>
    rw [fold_connective] at h
    cases hpush : c.pushConnective p op with
    | error e => rw [hpush] at h; cases h
    | ok d =>
      rw [hpush] at h
      exact ih h (hc.pushConnective hpush)
  | group negated p body rest _ ih =>
    rw [fold_group] at h
    cases hbody : body.result .empty with
    | error e => rw [hbody] at h; cases h
    | ok o =>
      have ho := accurate_of_result hbody trivial
      rw [hbody, Except.bind] at h
      cases hpush : c.pushOperand p (o.negateIf negated) with
      | error e => rw [hpush] at h; cases h
      | ok d =>
        rw [hpush] at h
        exact ih h (hc.pushOperand hpush (ho.negateIf negated))

end Level

/-! ## Chains in slots -/

/-- The chain as it lies in the slots. -/
def Chain.slots : Chain → InPlace.Slots
  | empty => {}
  | operand l => { left := some l }
  | pending l op p => { left := some l, pending := some (op, p) }
  | complete l op p r => { left := some l, pending := some (op, p), right := some r }

namespace InPlace

theorem handOn_of_accurate {o : Operand} (h : o.Accurate) : handOn o = .ok o := by
  unfold handOn promise
  rw [if_pos h]
  rfl

theorem lift_join {l r : Operand} (hl : l.Accurate) (hr : r.Accurate) (op : Connective) (p : Nat) :
    (lift (l.join op p r) >>= handOn) = lift (l.join op p r) := by
  cases hjoin : l.join op p r with
  | error e => rfl
  | ok o => exact handOn_of_accurate (hl.join hjoin hr)

/-- On the slots of a chain, the checked call with an operand is the call on the chain. -/
theorem push_slots (c : Chain) {o : Operand} (ho : o.Accurate) (p : Nat) :
    c.slots.push o p = lift ((c.pushOperand p o).map Chain.slots) := by
  rw [Slots.push, handOn_of_accurate ho]
  cases c <;> rfl

theorem connect_slots {c : Chain} (hc : c.Accurate) (op : Connective) (p : Nat) :
    c.slots.connect op p = lift ((c.pushConnective p op).map Chain.slots) := by
  cases c with
  | empty => rfl
  | operand l => rfl
  | pending l op' q => rfl
  | complete l op' q r =>
    simp only [Slots.connect, Slots.pushConnective, Slots.reduce, Chain.slots,
      Chain.pushConnective, lift_join hc.1 hc.2]
    cases l.join op' q r <;> rfl

theorem finish_slots {c : Chain} (hc : c.Accurate) : c.slots.finish = lift c.finish := by
  cases c with
  | empty => rfl
  | operand l => exact handOn_of_accurate hc
  | pending l op p => rfl
  | complete l op p r => exact lift_join hc.1 hc.2 op p

end InPlace

end TruthTables
