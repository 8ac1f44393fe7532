import Mathlib.Algebra.Group.Nat.Defs
import TruthTables.Proofs.Columns

/-!
# Tables of expressions that have been read

The table of an expression whose variables are those of its tree is always built, out of the records
of the formulas that are shown (`Table.build_eq`). A label that is a column has in each row the
value of the last record with this label (`Table.value?_ofRecords`), which is the truth of its
formula there (`Table.value?_tabulated`).
-/

set_option autoImplicit false

namespace TruthTables

theorem Expression.pairwise_vars {e : Expression} (he : e.vars = e.root.vars) :
    e.vars.Pairwise (· < ·) := by
  rw [he]
  exact e.root.pairwise_vars

theorem Expression.vars_of_parse {s : String} {e : Expression} (h : parse s = .ok e) :
    e.vars = e.root.vars :=
  (isLevel_of_ofCanonical h).2.2.2

/-- The records of each row of the table. -/
def Expression.rowRecords (e : Expression) : List (List Record) :=
  (Assignment.enumerate e.vars).map fun a => e.tabulated.map (Formula.record a)

/-- The table out of these records. -/
abbrev Expression.table (e : Expression) : Table := .ofRecords e e.rowRecords

namespace Table

/-! ## Construction -/

/-- No row fails to be evaluated. -/
theorem build_eq {e : Expression} (he : e.vars = e.root.vars) :
    build e = .ok e.table := by
  have hrows : Record.ofRows e.root (Assignment.enumerate e.vars) = .ok e.rowRecords := by
    refine mapM_eq_pure_map fun a ha => ?_
    obtain ⟨k, -, rfl⟩ := List.mem_map.1 ha
    exact Record.ofRow_of_vars (Assignment.vars_ofRow (Expression.pairwise_vars he) k) he
  unfold build
  rw [hrows]
  rfl

/-! ## Columns and rows -/

section

variable {e : Expression} {rows : List (List Record)} {k : Nat} {label : String}

/-- The labels of the records are the columns. -/
theorem mem_columns_ofRecords :
    label ∈ (ofRecords e rows).columns ↔ ∃ row ∈ rows, ∃ r ∈ row, r.label = label := by
  show label ∈ columnsOf (FirstSeen.ofList rows.flatten).toList ↔ _
  simp only [columnsOf, List.mem_mergeSort, FirstSeen.mem_ofList, List.mem_map, List.mem_flatten]
  constructor
  · rintro ⟨r, ⟨row, hrow, hr⟩, hl⟩
    exact ⟨row, hrow, r, hr, hl⟩
  · rintro ⟨row, hrow, r, hr, hl⟩
    exact ⟨r, ⟨row, hrow, hr⟩, hl⟩

theorem length_rows_ofRecords :
    (ofRecords e rows).rows.length = Assignment.rowCount e.vars.length := by
  simp [ofRecords]

theorem getElem?_rows_ofRecords (hk : k < Assignment.rowCount e.vars.length) :
    (ofRecords e rows).rows[k]? = some ⟨.ofRow e.vars k,
      (ofRecords e rows).columns.map ((Grid.ofRows rows).cell? k)⟩ := by
  show (((Assignment.enumerate e.vars).zipIdx).map _)[k]? = _
  rw [List.getElem?_map, List.getElem?_zipIdx, Assignment.getElem?_enumerate hk, Option.map_some,
    Option.map_some, Nat.zero_add]
  rfl

theorem eq_of_getElem?_rows {row : Row} (h : (ofRecords e rows).rows[k]? = some row) :
    k < Assignment.rowCount e.vars.length ∧ row = ⟨.ofRow e.vars k,
      (ofRecords e rows).columns.map ((Grid.ofRows rows).cell? k)⟩ := by
  have hlt := (List.getElem?_eq_some_iff.1 h).1
  rw [length_rows_ofRecords] at hlt
  rw [getElem?_rows_ofRecords hlt] at h
  exact ⟨hlt, (Option.some.inj h).symm⟩

/-- A cell of a row is found in the column of its label. -/
theorem getElem?_values {columns : List String} {cell : String → Option Bool} {column : Nat}
    (h : columns.idxOf? label = some column) :
    (columns.map cell)[column]?.join = cell label := by
  obtain ⟨hlt, rfl, -⟩ := List.idxOf?_eq_some_iff.1 h
  rw [List.getElem?_map, List.getElem?_eq_getElem hlt]
  rfl

theorem value?_eq_cell? (hl : label ∈ (ofRecords e rows).columns)
    (hk : k < Assignment.rowCount e.vars.length) :
    (ofRecords e rows).value? k label = (Grid.ofRows rows).cell? k label := by
  obtain ⟨column, hc⟩ := Option.isSome_iff_exists.1 (List.isSome_idxOf?.2 hl)
  unfold value?
  rw [hc, getElem?_rows_ofRecords hk]
  exact getElem?_values hc

/-- The value in a column is that of the last record with its label in the row. -/
theorem value?_ofRecords (hl : label ∈ (ofRecords e rows).columns)
    (hk : k < Assignment.rowCount e.vars.length) :
    (ofRecords e rows).value? k label = Record.latest? label none (rows[k]?.getD []) := by
  rw [value?_eq_cell? hl hk, Grid.cell?_ofRows]

theorem value?_eq_none (h : label ∉ (ofRecords e rows).columns ∨
    Assignment.rowCount e.vars.length ≤ k) : (ofRecords e rows).value? k label = none := by
  unfold value?
  rcases h with h | h
  · rw [List.idxOf?_eq_none_iff.2 h]
  · rw [← @length_rows_ofRecords e rows] at h
    rw [List.getElem?_eq_none h]
    cases (ofRecords e rows).columns.idxOf? label <;> rfl

end

/-! ## The formulas that are shown -/

section

variable {e : Expression} {k : Nat}

theorem getElem?_rowRecords (hk : k < Assignment.rowCount e.vars.length) :
    e.rowRecords[k]? = some (e.tabulated.map (Formula.record (.ofRow e.vars k))) := by
  rw [Expression.rowRecords, List.getElem?_map, Assignment.getElem?_enumerate hk, Option.map_some]

/-- The columns are headed by the labels of the formulas that are shown. -/
theorem mem_columns {label : String} :
    label ∈ e.table.columns ↔ ∃ f ∈ e.tabulated, f.label = label := by
  rw [mem_columns_ofRecords]
  constructor
  · rintro ⟨row, hrow, r, hr, rfl⟩
    obtain ⟨a, -, rfl⟩ := List.mem_map.1 hrow
    obtain ⟨f, hf, rfl⟩ := List.mem_map.1 hr
    exact ⟨f, hf, rfl⟩
  · rintro ⟨f, hf, rfl⟩
    have hrow := getElem?_rowRecords (Assignment.rowCount_pos e.vars.length)
    exact ⟨_, List.mem_of_getElem? hrow, _, List.mem_map_of_mem hf, rfl⟩

theorem label_mem_columns (e : Expression) : e.label ∈ e.table.columns :=
  mem_columns.2 ⟨e.root, Expression.root_mem_tabulated, rfl⟩

/-- The cell of a formula is its truth in the row. -/
theorem value?_tabulated {f : Formula} (hf : f ∈ e.tabulated)
    (hk : k < Assignment.rowCount e.vars.length) :
    e.table.value? k f.label = some (f.truth (Assignment.ofRow e.vars k).valuation) := by
  rw [value?_ofRecords (mem_columns.2 ⟨f, hf, rfl⟩) hk, getElem?_rowRecords hk, Option.getD_some]
  exact Record.latest?_of_mem (.inl hf)

theorem cell?_tabulated {f : Formula} (hf : f ∈ e.tabulated)
    (hk : k < Assignment.rowCount e.vars.length) :
    (Grid.ofRows e.rowRecords).cell? k f.label =
      some (f.truth (Assignment.ofRow e.vars k).valuation) := by
  rw [← value?_tabulated hf hk, value?_eq_cell? (mem_columns.2 ⟨f, hf, rfl⟩) hk]

/-- The cells of a row are the values of the formulas under its assignment. -/
theorem eval_eq_value? {f : Formula} (he : e.vars = e.root.vars) (hf : f ∈ e.tabulated)
    (hk : k < Assignment.rowCount e.vars.length) :
    ∃ v, f.eval (.ofRow e.vars k) = .ok v ∧ e.table.value? k f.label = some v := by
  have ha := Assignment.vars_ofRow (Expression.pairwise_vars he) k
  exact ⟨_, Formula.eval_of_covers (Expression.covers_of_mem_tabulated ha he hf),
    value?_tabulated hf hk⟩

/-- The results are the values of the whole. -/
theorem results_eq (he : e.vars = e.root.vars) : e.table.results =
    e.table.rows.map fun row => (e.root.eval row.assignment).toOption := by
  have hmem : e.root.label ∈ e.table.columns := label_mem_columns e
  obtain ⟨column, hc⟩ := Option.isSome_iff_exists.1 (List.isSome_idxOf?.2 hmem)
  have hroot : e.table.rootColumn = column := by
    show (e.table.columns.idxOf? e.root.label).getD _ = column
    rw [hc, Option.getD_some]
  refine List.map_congr_left fun row hrow => ?_
  obtain ⟨k, hk⟩ := List.getElem?_of_mem hrow
  obtain ⟨hlt, rfl⟩ := eq_of_getElem?_rows hk
  obtain ⟨v, hv, hvalue⟩ := eval_eq_value? he Expression.root_mem_tabulated hlt
  rw [value?_eq_cell? hmem hlt] at hvalue
  rw [hv, hroot, getElem?_values hc, hvalue]
  rfl

end

/-! ## Tables of texts -/

/-- **The table is complete and every cell is right**: whatever has been read has a table, with a
row for each assignment of its variables, in which every cell holds the value that evaluating the
formula of its column gives in its row. -/
theorem build_of_parse {s : String} {e : Expression} (h : Expression.parse s = .ok e) :
    ∃ t, build e = .ok t ∧
      t.rows.length = 2 ^ e.vars.length ∧
      (∀ k row, t.rows[k]? = some row →
        row.assignment.vars = e.vars ∧
        (∀ i x, e.vars[i]? = some x →
          row.assignment.get? x = some (!k.testBit (e.vars.length - 1 - i))) ∧
        row.values.length = t.columns.length ∧ none ∉ row.values ∧
        ∀ m ∈ e.tabulated, ∃ v, m.eval row.assignment = .ok v ∧ t.value? k m.label = some v) ∧
      (∀ k label, label ∉ t.columns ∨ 2 ^ e.vars.length ≤ k → t.value? k label = none) ∧
      t.results = t.rows.map fun row => (e.root.eval row.assignment).toOption := by
  obtain ⟨-, -, -, he⟩ := Expression.isLevel_of_ofCanonical h
  have hvars := Expression.pairwise_vars he
  refine ⟨_, build_eq he, length_rows_ofRecords, fun k row hk => ?_,
    fun k label hn => value?_eq_none hn, results_eq he⟩
  obtain ⟨hlt, rfl⟩ := eq_of_getElem?_rows hk
  refine ⟨Assignment.vars_ofRow hvars k, fun i x hx => Assignment.get?_ofRow hvars k hx,
    List.length_map _, fun hnone => ?_, fun m hm => eval_eq_value? he hm hlt⟩
  obtain ⟨label, hl, hcell⟩ := List.mem_map.1 hnone
  obtain ⟨f, hf, rfl⟩ := mem_columns.1 hl
  have hsome := value?_tabulated hf hlt
  rw [value?_eq_cell? hl hlt, hcell] at hsome
  cases hsome

/-- In the last row of `~(a v b)` neither holds. -/
theorem build_nor :
    let f : Formula := .binary true .or (.letter false ⟨'a', rfl⟩) (.letter false ⟨'b', rfl⟩)
    Expression.parse "~(a v b)" = .ok ⟨f, [⟨'a', rfl⟩, ⟨'b', rfl⟩]⟩ ∧
      ∃ t, build ⟨f, [⟨'a', rfl⟩, ⟨'b', rfl⟩]⟩ = .ok t ∧ t.rows.length = 4 ∧
        t.value? 3 "~(a v b)" = some true := by
  intro f
  have hlabel : f.label = "~(a v b)" := by decide
  have hvars : f.vars = [⟨'a', rfl⟩, ⟨'b', rfl⟩] := by decide
  have hparse : Expression.parse "~(a v b)" = .ok ⟨f, [⟨'a', rfl⟩, ⟨'b', rfl⟩]⟩ := by
    rw [← hlabel, ← hvars]
    exact Expression.parse_label_of_le (by decide)
  obtain ⟨t, hbuild, hlength, hrows, -, -⟩ := build_of_parse hparse
  obtain ⟨row, hlast⟩ : ∃ row, t.rows[3]? = some row :=
    ⟨_, List.getElem?_eq_getElem (by rw [hlength]; decide)⟩
  obtain ⟨-, hget, -, -, hcells⟩ := hrows 3 row hlast
  obtain ⟨v, hv, hvalue⟩ := hcells f (List.mem_append_right _ (List.mem_singleton_self _))
  have ha : row.assignment.get? ⟨'a', rfl⟩ = some false :=
    (hget 0 _ rfl).trans (by decide)
  have hb : row.assignment.get? ⟨'b', rfl⟩ = some false :=
    (hget 1 _ rfl).trans (by decide)
  have heval : f.eval row.assignment = .ok true := by
    simp only [f, Formula.eval, ha, hb]
    rfl
  have htrue : v = true := by
    rw [heval] at hv
    exact (Except.ok.inj hv).symm
  rw [hlabel, htrue] at hvalue
  exact ⟨hparse, t, hbuild, hlength, hvalue⟩

end Table

end TruthTables
