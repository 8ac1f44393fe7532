import Std.Data.HashMap
import Std.Data.HashSet
import TruthTables.Evaluation
import TruthTables.Expression

/-!
# Truth tables

A truth table has a row for each assignment of the variables of an expression and a column for each
label among its variables, its negated nodes and the whole. The columns are those of the records,
shortest label first and otherwise in the order in which they were first seen; the cells come from a
grid that is filled with the records row by row.
-/

set_option autoImplicit false

namespace TruthTables

/-! ## Sets in the order of insertion

A set that remembers in which order its members came. `FirstSeen.toList_insert` says what an
insertion does to that order: a member that is there already stays where it is. -/

/-- `members` answers quickly what `items` holds in order. -/
structure FirstSeen (α : Type) [DecidableEq α] [Hashable α] where
  members : Std.HashSet α
  items : Array α
  mem_members : ∀ x, x ∈ members ↔ x ∈ items
  nodup : items.toList.Nodup

namespace FirstSeen

variable {α : Type} [DecidableEq α] [Hashable α]

def empty : FirstSeen α := ⟨∅, #[], by simp, by simp⟩

instance : Inhabited (FirstSeen α) := ⟨empty⟩

/-- The members in the order in which they came. -/
def toList (s : FirstSeen α) : List α := s.items.toList

def insert (s : FirstSeen α) (x : α) : FirstSeen α :=
  if h : x ∈ s.members then s
  else
    { members := s.members.insert x
      items := s.items.push x
      mem_members := fun y => by
        rw [Std.HashSet.mem_insert, Array.mem_push, s.mem_members, beq_iff_eq, or_comm, eq_comm]
      nodup := by
        rw [Array.toList_push, List.nodup_append]
        refine ⟨s.nodup, by simp, fun y hy z hz => ?_⟩
        rw [s.mem_members, Array.mem_def] at h
        rw [List.mem_singleton] at hz
        exact fun heq => h (hz ▸ heq ▸ hy) }

/-- Inserts the elements of a list in order. -/
def ofList (xs : List α) : FirstSeen α := xs.foldl insert empty

@[simp] theorem toList_empty : (empty : FirstSeen α).toList = [] := rfl

theorem toList_insert (s : FirstSeen α) (x : α) :
    (s.insert x).toList = if x ∈ s.toList then s.toList else s.toList ++ [x] := by
  have hx : x ∈ s.members ↔ x ∈ s.toList := by rw [s.mem_members, toList, Array.mem_def]
  by_cases h : x ∈ s.members
  · rw [insert, dif_pos h, if_pos (hx.1 h)]
  · rw [insert, dif_neg h, if_neg fun hm => h (hx.2 hm)]
    simp [toList]

end FirstSeen

/-! ## Records

A record is the value of a labelled formula under the values of its own variables, so that rows of a
table that agree on those variables give equal records. `Record.ofRow` lists the records of a row:
those of the variables, those of the negated nodes in the order of their evaluation, and that of the
whole. -/

structure Record where
  label : String
  assignment : Assignment
  value : Bool
deriving DecidableEq, Hashable

/-- What the records of a formula have in common in all rows. -/
structure Subject where
  label : String
  vars : List Variable
deriving DecidableEq

namespace Subject

def ofFormula (f : Formula) : Subject := ⟨f.label, f.vars⟩

/-- The record in a row where the formula has the value `b`. -/
def record (s : Subject) (row : Assignment) (b : Bool) : Record :=
  ⟨s.label, row.restrict fun x => s.vars.contains x, b⟩

end Subject

namespace Record

def ofVariable (x : Variable) (b : Bool) : Record := ⟨toString x, .single x b, b⟩

/-- The records of one row, where `negated` are the subjects of the negated nodes in post-order and
`whole` is the label of the root. -/
def ofRow (root : Formula) (negated : List Subject) (whole : String) (row : Assignment) :
    Except EvalError (List Record) :=
  match root.trace row with
  | (_, .error e) => .error e
  | (nodes, .ok b) =>
    let values := (nodes.toList.filter fun node => node.1.isNegated).map (·.2)
    .ok (row.entries.map (fun entry => ofVariable entry.1 entry.2)
      ++ List.zipWith (fun subject value => subject.record row value) negated values
      ++ [⟨whole, row, b⟩])

/-- The records of every row. -/
def ofRows (root : Formula) (rows : List Assignment) : Except EvalError (List (List Record)) :=
  let negated := (root.subformulas.filter Formula.isNegated).map Subject.ofFormula
  let whole := root.label
  rows.mapM (ofRow root negated whole)

end Record

/-! ## Grids

A grid collects the cells of a table row by row. A cell is addressed by its label; a label gets a
slot when it is first filled, in whatever row, and keeps it. Rows are as long as the last slot that
was filled in them asks for, so that a cell beyond the end of its row is empty like one that holds
`none`. -/

structure Grid where
  slots : Std.HashMap String Nat
  rows : Array (Array (Option Bool))

namespace Grid

def empty : Grid := ⟨∅, #[]⟩

instance : Inhabited Grid := ⟨empty⟩

/-- Begins a row with an empty cell for each label that has a slot. -/
def startRow (g : Grid) : Grid := { g with rows := g.rows.push (.replicate g.slots.size none) }

/-- Sets a slot of a row, which grows to hold it. -/
def setSlot (slot : Nat) (value : Bool) (row : Array (Option Bool)) : Array (Option Bool) :=
  (row ++ Array.replicate (slot + 1 - row.size) none).setIfInBounds slot (some value)

/-- Sets the cell of the label in the last row. -/
def fill (g : Grid) (label : String) (value : Bool) : Grid :=
  match g.slots[label]? with
  | some slot => { g with rows := g.rows.modify (g.rows.size - 1) (setSlot slot value) }
  | none =>
    { slots := g.slots.insert label g.slots.size
      rows := g.rows.modify (g.rows.size - 1) (setSlot g.slots.size value) }

/-- The cell of the label in row `row`, if it was filled. -/
def cell? (g : Grid) (row : Nat) (label : String) : Option Bool :=
  match g.slots[label]?, g.rows[row]? with
  | some slot, some cells => cells[slot]?.join
  | _, _ => none

end Grid

/-! ## Tables -/

structure Row where
  assignment : Assignment
  /-- One value for each column. -/
  values : List (Option Bool)
deriving DecidableEq

structure Table where
  vars : List Variable
  columns : List String
  rows : List Row
  /-- Without repetition, in the order in which they came. -/
  records : List Record
  /-- The column of the whole expression. -/
  rootColumn : Nat
deriving DecidableEq

/-- Fills one row after the other. -/
def Grid.ofRows (rows : List (List Record)) : Grid :=
  rows.foldl (fun g row => row.foldl (fun g r => g.fill r.label r.value) g.startRow) .empty

namespace Table

/-! ## Construction -/

/-- The labels of the records as they are first seen, then sorted by length; equal lengths keep
their order. -/
def columnsOf (records : List Record) : List String :=
  (FirstSeen.ofList (records.map (·.label))).toList.mergeSort fun l l' => l.length ≤ l'.length

/-- The table in which row `i` holds the records at index `i`. -/
def ofRecords (e : Expression) (rows : List (List Record)) : Table :=
  let records := (FirstSeen.ofList rows.flatten).toList
  let columns := columnsOf records
  let grid := Grid.ofRows rows
  { vars := e.vars
    columns
    rows := (Assignment.enumerate e.vars).zipIdx.map fun (a, i) =>
      ⟨a, columns.map (grid.cell? i)⟩
    records
    rootColumn := (columns.idxOf? e.label).getD (columns.length - 1) }

/-- The truth table of an expression. -/
def build (e : Expression) : Except EvalError Table :=
  (ofRecords e) <$> Record.ofRows e.root (Assignment.enumerate e.vars)

/-! ## Queries -/

/-- The value in a row of the column with this label. -/
def value? (t : Table) (row : Nat) (label : String) : Option Bool :=
  match t.columns.idxOf? label, t.rows[row]? with
  | some column, some r => r.values[column]?.join
  | _, _ => none

/-- The values of the whole expression, row by row. -/
def results (t : Table) : List (Option Bool) := t.rows.map fun r => r.values[t.rootColumn]?.join

/-- The label of the whole expression. -/
def rootLabel (t : Table) : String := t.columns[t.rootColumn]?.getD ""

def isTautology (t : Table) : Bool := t.results.all (· == some true)

def isContradiction (t : Table) : Bool := t.results.all (· == some false)

/-! ## Layout

A table is printed in lines of equal width: the labels of the columns, a rule, then a line for each
row. A column is two characters wider than its label, and what stands in it is centred, with the odd
space on the right. -/

def columnWidths (t : Table) : List Nat := t.columns.map fun label => label.length + 2

/-- Puts spaces around the text up to the width; a text that is too wide stays as it is. -/
def centre (width : Nat) (text : List Char) : List Char :=
  let spaces := width - text.length
  List.replicate (spaces / 2) ' ' ++ text ++ List.replicate (spaces - spaces / 2) ' '

/-- The letter for a value, or a dash where there is none. -/
def cellText : Option Bool → List Char
  | some true => ['T']
  | some false => ['F']
  | none => ['-']

/-- Texts side by side, each centred in its column. -/
def lineOf (texts : List (List Char)) (widths : List Nat) : List Char :=
  ['|'].intercalate (List.zipWith (fun text width => centre width text) texts widths)

def headerLine (t : Table) : List Char := lineOf (t.columns.map String.toList) t.columnWidths

def ruleLine (t : Table) : List Char :=
  ['+'].intercalate (t.columnWidths.map fun width => List.replicate width '-')

def rowLine (t : Table) (r : Row) : List Char := lineOf (r.values.map cellText) t.columnWidths

/-- The printed lines. -/
def lines (t : Table) : List String :=
  (t.headerLine :: t.ruleLine :: t.rows.map t.rowLine).map String.ofList

/-- The lines as one text, without a line feed at the end. -/
def text (t : Table) : String := "\n".intercalate t.lines

instance : ToString Table := ⟨text⟩

end Table

end TruthTables
