import Mathlib.Data.List.Induction
import TruthTables.Proofs.Grid

/-!
# Grids and ledgers

Rows of a grid can begin, and labels can come up, in any order. A ledger is the plain map that a
grid stands for: it has no slots and no row lengths, only values by row and label. Each call keeps a
grid in step with its ledger (`Grid.Refines.call`), so that the two agree after any sequence of
calls (`Grid.refines_after`). What a ledger holds is the value of the last call that filled the
label in that row: `Ledger.isLastFill_after`.
-/

set_option autoImplicit false

namespace TruthTables

namespace Grid

/-- A call of one of the two operations. -/
inductive Call
  | startRow
  | fill (r : Record)
deriving DecidableEq

def call (g : Grid) : Call → Grid
  | .startRow => g.startRow
  | .fill r => g.fill r.label r.value

/-- The grid after a sequence of calls. -/
def after (calls : List Call) : Grid := calls.foldl call empty

/-! ## The last call that fills a cell -/

/-- Call `k` fills the label with the value while row `i` is the last one. -/
def FillsAt (calls : List Call) (k i : Nat) (label : String) (value : Bool) : Prop :=
  ∃ a, calls[k]? = some (.fill ⟨label, a, value⟩) ∧ (calls.take k).count .startRow = i + 1

/-- The answer is the value of the last call that fills the label while row `i` is the last one, or
`none` if there is no such call. -/
def IsLastFill (calls : List Call) (i : Nat) (label : String) : Option Bool → Prop
  | some value => ∃ k, FillsAt calls k i label value ∧
      ∀ k' value', FillsAt calls k' i label value' → k' ≤ k
  | none => ∀ k value, ¬ FillsAt calls k i label value

section

variable {calls : List Call} {c : Call} {k i : Nat} {label : String} {value value' : Bool}

theorem FillsAt.lt (h : FillsAt calls k i label value) : k < calls.length := by
  obtain ⟨a, hk, -⟩ := h
  exact (List.getElem?_eq_some_iff.1 hk).1

theorem FillsAt.unique (h : FillsAt calls k i label value) (h' : FillsAt calls k i label value') :
    value = value' := by
  obtain ⟨a, hk, -⟩ := h
  obtain ⟨a', hk', -⟩ := h'
  rw [hk] at hk'
  cases hk'
  rfl

/-- One more call adds what it fills itself, if anything. -/
theorem fillsAt_concat : FillsAt (calls ++ [c]) k i label value ↔ FillsAt calls k i label value ∨
    k = calls.length ∧ (∃ a, c = .fill ⟨label, a, value⟩) ∧ calls.count .startRow = i + 1 := by
  unfold FillsAt
  rcases Nat.lt_trichotomy k calls.length with hk | rfl | hk
  · rw [List.getElem?_append_left hk, List.take_append_of_le_length (Nat.le_of_lt hk)]
    simp [Nat.ne_of_lt hk]
  · rw [List.getElem?_concat_length, List.getElem?_eq_none (Nat.le_refl _), List.take_left]
    simp
  · rw [List.getElem?_eq_none (by simp; omega), List.getElem?_eq_none (Nat.le_of_lt hk)]
    simp [Nat.ne_of_gt hk]

namespace IsLastFill

/-- A call that fills the cell is the last one to do so. -/
theorem concat_fill (r : Record) (h : calls.count .startRow = i + 1) :
    IsLastFill (calls ++ [.fill r]) i r.label (some r.value) := by
  refine ⟨calls.length, fillsAt_concat.2 (.inr ⟨rfl, ⟨r.assignment, rfl⟩, h⟩), ?_⟩
  intro k' value' hk'
  have := hk'.lt
  rw [List.length_append, List.length_singleton] at this
  omega

/-- A call that does not fill the cell changes nothing about the last call that does. -/
theorem concat_other {answer : Option Bool} (h : IsLastFill calls i label answer)
    (hc : ∀ value, (∃ a, c = .fill ⟨label, a, value⟩) → calls.count .startRow ≠ i + 1) :
    IsLastFill (calls ++ [c]) i label answer := by
  have hiff : ∀ k value, FillsAt (calls ++ [c]) k i label value ↔ FillsAt calls k i label value :=
    fun k value => fillsAt_concat.trans (or_iff_left fun hnew => hc value hnew.2.1 hnew.2.2)
  cases answer with
  | none => exact fun k value hk => h k value ((hiff k value).1 hk)
  | some value =>
    obtain ⟨k, hk, hlast⟩ := h
    exact ⟨k, (hiff k value).2 hk, fun k' value' hk' => hlast k' value' ((hiff k' value').1 hk')⟩

/-- The calls leave no choice of the answer. -/
theorem unique {x y : Option Bool} (hx : IsLastFill calls i label x)
    (hy : IsLastFill calls i label y) : x = y := by
  cases x with
  | none =>
    cases y with
    | none => rfl
    | some value =>
      obtain ⟨k, hk, -⟩ := hy
      exact absurd hk (hx k value)
  | some value =>
    obtain ⟨k, hk, hlast⟩ := hx
    cases y with
    | none => exact absurd hk (hy k value)
    | some value' =>
      obtain ⟨k', hk', hlast'⟩ := hy
      obtain rfl : k = k' := Nat.le_antisymm (hlast' k value hk) (hlast k' value' hk')
      rw [hk.unique hk']

end IsLastFill

end

end Grid

/-! ## Ledgers -/

open Grid (Call IsLastFill)

/-- The number of rows that have begun, and the values by row and label. -/
structure Ledger where
  rows : Nat
  cells : Std.HashMap (Nat × String) Bool

namespace Ledger

def empty : Ledger := ⟨0, ∅⟩

/-- A record is entered under the row that began last; before the first row it is lost. -/
def call (m : Ledger) : Call → Ledger
  | .startRow => { m with rows := m.rows + 1 }
  | .fill r =>
    match m.rows with
    | 0 => m
    | i + 1 => { m with cells := m.cells.insert (i, r.label) r.value }

/-- The ledger after a sequence of calls. -/
def after (calls : List Call) : Ledger := calls.foldl call empty

theorem after_concat (calls : List Call) (c : Call) :
    after (calls ++ [c]) = (after calls).call c := by
  rw [after, List.foldl_append]
  rfl

theorem rows_fill (m : Ledger) (r : Record) : (m.call (.fill r)).rows = m.rows := by
  obtain ⟨rows, cells⟩ := m
  cases rows <;> rfl

theorem rows_after (calls : List Call) : (after calls).rows = calls.count .startRow := by
  induction calls using List.reverseRecOn with
  | nil => rfl
  | append_singleton calls c ih =>
    rw [after_concat, List.count_append, ← ih]
    cases c with
    | startRow => rfl
    | fill r => exact rows_fill _ r

/-- A record changes the cell of its label in the row that began last, and no other. -/
theorem getElem?_fill (m : Ledger) (r : Record) (i : Nat) (label : String) :
    (m.call (.fill r)).cells[(i, label)]? =
      if i + 1 = m.rows ∧ label = r.label then some r.value else m.cells[(i, label)]? := by
  obtain ⟨rows, cells⟩ := m
  cases rows with
  | zero => simp [call]
  | succ j =>
    simp only [call, Std.HashMap.getElem?_insert, beq_iff_eq, Prod.mk.injEq,
      Nat.add_right_cancel_iff, eq_comm (a := j), eq_comm (a := r.label)]

/-- **A ledger holds the value of the last call that filled the cell.** -/
theorem isLastFill_after (calls : List Call) (i : Nat) (label : String) :
    IsLastFill calls i label (after calls).cells[(i, label)]? := by
  -- By the last call: it is the last fill of its own cell and leaves the other cells alone.
  induction calls using List.reverseRecOn with
  | nil =>
    have hnone : (after []).cells[(i, label)]? = none := Std.HashMap.getElem?_empty
    rw [hnone]
    intro k value hk
    exact absurd hk.lt (Nat.not_lt_zero k)
  | append_singleton calls c ih =>
    rw [after_concat]
    cases c with
    | startRow => exact ih.concat_other fun value ⟨a, ha⟩ => by cases ha
    | fill r =>
      rw [getElem?_fill, rows_after]
      by_cases h : i + 1 = calls.count .startRow ∧ label = r.label
      · obtain ⟨hi, rfl⟩ := h
        rw [if_pos ⟨hi, rfl⟩]
        exact .concat_fill r hi.symm
      · rw [if_neg h]
        refine ih.concat_other fun value ⟨a, ha⟩ hi => h ⟨hi.symm, ?_⟩
        cases ha
        rfl

end Ledger

namespace Grid

/-! ## Grids in step with ledgers -/

theorem after_concat (calls : List Call) (c : Call) :
    after (calls ++ [c]) = (after calls).call c := by
  rw [after, List.foldl_append]
  rfl

/-- The grid of a table comes about by such calls. -/
theorem ofRows_eq_after (rows : List (List Record)) :
    ofRows rows = after (rows.flatMap fun row => .startRow :: row.map .fill) := by
  rw [ofRows, after, List.foldl_flatMap]
  simp only [List.foldl_cons, List.foldl_map]
  rfl

/-- Every slot of `g` is a slot of `g'`, of the same label. -/
def KeepsSlots (g g' : Grid) : Prop :=
  ∀ (label : String) (slot : Nat), g.slots[label]? = some slot → g'.slots[label]? = some slot

theorem keepsSlots_call (g : Grid) (c : Call) : g.KeepsSlots (g.call c) := by
  intro label slot h
  cases c with
  | startRow => exact h
  | fill r =>
    rw [call, slots_fill]
    split
    · next hl =>
      -- A label that is filled again keeps its slot.
      rw [slotOf, ← hl, h, Option.getD_some]
    · exact h

theorem keepsSlots_after (calls later : List Call) :
    (after calls).KeepsSlots (after (calls ++ later)) := by
  induction later using List.reverseRecOn with
  | nil =>
    rw [List.append_nil]
    exact fun label slot h => h
  | append_singleton later c ih =>
    rw [← List.append_assoc, after_concat]
    exact fun label slot h => keepsSlots_call _ c label slot (ih label slot h)

/-- The grid stands for the ledger. -/
structure Refines (g : Grid) (m : Ledger) : Prop where
  wellFormed : g.WellFormed
  size_rows : g.rows.size = m.rows
  cell?_eq : ∀ i label, g.cell? i label = m.cells[(i, label)]?

namespace Refines

theorem empty : Grid.empty.Refines Ledger.empty where
  wellFormed := .empty
  size_rows := rfl
  cell?_eq i label := by
    rw [cell?_eq_none (Nat.zero_le i)]
    exact Std.HashMap.getElem?_empty.symm

theorem call {g : Grid} {m : Ledger} (h : g.Refines m) (c : Call) :
    (g.call c).Refines (m.call c) := by
  cases c with
  | startRow =>
    refine ⟨h.wellFormed.startRow, ?_, fun i label => ?_⟩
    · exact (size_rows_startRow g).trans (congrArg (· + 1) h.size_rows)
    · exact (cell?_startRow g i label).trans (h.cell?_eq i label)
  | fill r =>
    refine ⟨h.wellFormed.fill r.label r.value, ?_, fun i label => ?_⟩
    · rw [Grid.call, size_rows_fill, h.size_rows, Ledger.rows_fill]
    · rw [Grid.call, Ledger.getElem?_fill, ← h.size_rows, ← h.cell?_eq]
      exact cell?_fill h.wellFormed r.label r.value i label

end Refines

theorem refines_after (calls : List Call) : (after calls).Refines (Ledger.after calls) := by
  induction calls using List.reverseRecOn with
  | nil => exact .empty
  | append_singleton calls c ih =>
    rw [after_concat, Ledger.after_concat]
    exact ih.call c

/-- **A grid stands for a plain map from rows and labels.** After any calls, in whatever order rows
begin and labels come up: labels have slots of their own below the number of slots, no row goes
beyond them, and no later call changes a slot; and a cell holds the value of the last call that
filled its label while its row was the last one, or nothing if there was none. -/
theorem after_refines_ledger (calls : List Call) :
    let g := after calls
    g.WellFormed ∧ (∀ later, g.KeepsSlots (after (calls ++ later))) ∧
      g.rows.size = calls.count .startRow ∧
      ∀ i label, g.cell? i label = (Ledger.after calls).cells[(i, label)]? ∧
        ∀ answer, g.cell? i label = answer ↔ IsLastFill calls i label answer := by
  have href := refines_after calls
  refine ⟨href.wellFormed, keepsSlots_after calls, ?_, fun i label => ⟨href.cell?_eq i label, ?_⟩⟩
  · rw [href.size_rows, Ledger.rows_after]
  · intro answer
    have hlast := Ledger.isLastFill_after calls i label
    rw [href.cell?_eq]
    constructor
    · rintro rfl
      exact hlast
    · exact hlast.unique

/-- A row that ends before the slot of `b`, a gap at the slot of `a`, and a cell filled twice. -/
theorem cells_of_uneven_rows :
    let calls : List Call := [.startRow, .fill ⟨"a", .empty, true⟩, .startRow,
      .fill ⟨"b", .empty, false⟩, .fill ⟨"b", .empty, true⟩]
    (after calls).cell? 0 "b" = none ∧ (after calls).cell? 1 "a" = none ∧
      (after calls).cell? 1 "b" = some true := by
  intro calls
  have h := (after_refines_ledger calls).2.2.2
  refine ⟨(h 0 "b").1.trans ?_, (h 1 "a").1.trans ?_, (h 1 "b").1.trans ?_⟩
  all_goals simp [calls, Ledger.after, Ledger.call, Ledger.empty]

end Grid

end TruthTables
