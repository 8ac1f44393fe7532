import Mathlib.Data.List.Induction
import TruthTables.Proofs.Tabulation

/-!
# Headings

The columns of a table are headed by the labels of the formulas that are shown, each label once and
sorted by length: `Table.columns_eq`. All rows bring the same labels in the same order, so the first
one settles the columns and their order. The label of the whole is longer than any other
(`Expression.length_label_lt`), which puts it last.
-/

set_option autoImplicit false

namespace TruthTables

/-! ## First occurrences -/

section

variable {α β : Type} [DecidableEq α] [DecidableEq β]

theorem eraseDups_concat (xs : List α) (x : α) :
    (xs ++ [x]).eraseDups = if x ∈ xs then xs.eraseDups else xs.eraseDups ++ [x] := by
  rw [List.eraseDups_append]
  by_cases h : x ∈ xs <;> simp [List.removeAll, h, List.eraseDups_cons]

theorem eraseDups_append_of_subset {xs ys : List α} (h : ys ⊆ xs) :
    (xs ++ ys).eraseDups = xs.eraseDups := by
  have hnil : ys.removeAll xs = [] := by
    simp only [List.removeAll, List.filter_eq_nil_iff]
    intro y hy
    simp [h hy]
  rw [List.eraseDups_append, hnil, List.eraseDups_nil, List.append_nil]

theorem nodup_eraseDups (xs : List α) : xs.eraseDups.Nodup := by
  induction xs using List.reverseRecOn with
  | nil => simp
  | append_singleton xs x ih =>
    rw [eraseDups_concat]
    split
    · exact ih
    · next hx =>
      refine List.nodup_append.2 ⟨ih, by simp, fun y hy z hz heq => hx ?_⟩
      rw [← List.mem_singleton.1 hz, ← heq]
      exact List.mem_eraseDups.1 hy

theorem eraseDups_eq_self {xs : List α} (h : xs.Nodup) : xs.eraseDups = xs := by
  induction xs using List.reverseRecOn with
  | nil => rfl
  | append_singleton xs x ih =>
    obtain ⟨hxs, -, hx⟩ := List.nodup_append.1 h
    rw [eraseDups_concat, if_neg fun hmem => hx x hmem x (List.mem_singleton_self x) rfl, ih hxs]

/-- Repetitions may be dropped before the elements are mapped. -/
theorem eraseDups_map_eraseDups (f : α → β) (xs : List α) :
    (xs.eraseDups.map f).eraseDups = (xs.map f).eraseDups := by
  induction xs using List.reverseRecOn with
  | nil => rfl
  | append_singleton xs x ih =>
    rw [eraseDups_concat, List.map_append, List.map_singleton, eraseDups_concat]
    split
    · next hx => rw [ih, if_pos (List.mem_map_of_mem hx)]
    · rw [List.map_append, List.map_singleton, eraseDups_concat, ih]
      simp only [List.mem_map, List.mem_eraseDups]

theorem map_eraseDups {f : α → β} (hf : ∀ {x y}, f x = f y → x = y) (xs : List α) :
    xs.eraseDups.map f = (xs.map f).eraseDups := by
  have hnodup : (xs.eraseDups.map f).Nodup :=
    List.pairwise_map.2 ((nodup_eraseDups xs).imp fun hne heq => hne (hf heq))
  rw [← eraseDups_map_eraseDups, eraseDups_eq_self hnodup]

/-- What is seen first is kept, and what comes again is dropped. -/
theorem FirstSeen.toList_ofList [Hashable α] (xs : List α) :
    (ofList xs).toList = xs.eraseDups := by
  induction xs using List.reverseRecOn with
  | nil => rfl
  | append_singleton xs x ih =>
    have hstep : ofList (xs ++ [x]) = (ofList xs).insert x := by simp [ofList]
    rw [hstep, toList_insert, ih, eraseDups_concat]
    simp only [List.mem_eraseDups]

end

/-! ## Stable sorting -/

/-- `sorted` lists `xs` by ascending keys, and elements with one key in the order of `xs`. -/
structure IsStableSort {α : Type} (key : α → Nat) (xs sorted : List α) : Prop where
  ascending : sorted.Pairwise fun x y => key x ≤ key y
  stable : ∀ n, (sorted.filter fun x => key x = n) = xs.filter fun x => key x = n

theorem isStableSort_mergeSort {α : Type} (key : α → Nat) (xs : List α) :
    IsStableSort key xs (xs.mergeSort fun x y => key x ≤ key y) := by
  have htrans : ∀ x y z, decide (key x ≤ key y) = true → decide (key y ≤ key z) = true →
      decide (key x ≤ key z) = true := by
    intro x y z hxy hyz
    simp only [decide_eq_true_eq] at *
    omega
  have htotal : ∀ x y, (decide (key x ≤ key y) || decide (key y ≤ key x)) = true := by
    intro x y
    simp only [Bool.or_eq_true, decide_eq_true_eq]
    omega
  refine ⟨?_, fun n => ?_⟩
  · exact (List.pairwise_mergeSort htrans htotal xs).imp fun h => by simpa using h
  · -- Elements with one key are in order, so sorting does not take them apart.
    have hkey : (xs.filter fun x => key x = n).Pairwise
        fun x y => decide (key x ≤ key y) = true := by
      refine List.pairwise_of_forall_mem_list fun x hx y hy => ?_
      have hx := (List.mem_filter.1 hx).2
      have hy := (List.mem_filter.1 hy).2
      simp only [decide_eq_true_eq] at *
      omega
    have hsub := (List.sublist_mergeSort htrans htotal hkey List.filter_sublist).filter
      fun x => key x = n
    rw [List.filter_filter] at hsub
    simp only [Bool.and_self] at hsub
    refine (hsub.eq_of_length ?_).symm
    exact ((List.mergeSort_perm xs _).filter _).length_eq.symm

/-- What has the greatest key, and alone has it, comes last. -/
theorem IsStableSort.exists_eq_append {α : Type} {key : α → Nat} {xs sorted : List α} {x : α}
    (h : IsStableSort key xs sorted) (hx : x ∈ sorted)
    (hlt : ∀ y ∈ sorted, y ≠ x → key y < key x) : ∃ others, sorted = others ++ [x] := by
  rcases List.eq_nil_or_concat sorted with rfl | ⟨others, last, rfl⟩
  · cases hx
  · have hascending := h.ascending
    rw [List.concat_eq_append] at *
    refine ⟨others, ?_⟩
    by_cases hlast : last = x
    · rw [hlast]
    · have hless := hlt last (by simp) hlast
      have hmem : x ∈ others := by simpa [Ne.symm hlast] using hx
      have hle := (List.pairwise_append.1 hascending).2.2 x hmem last (by simp)
      omega

/-! ## Lengths of labels -/

namespace Formula

/-- A node is the root or has a shorter label. -/
theorem eq_or_length_lt_of_mem_subformulas {f g : Formula} (hg : g ∈ f.subformulas) :
    g = f ∨ g.written.length < f.written.length :=
  (eq_or_isProperPartOf_of_mem_subformulas hg).imp_right length_written_lt_of_isProperPartOf

/-- A variable that occurs is all there is or has a shorter label. -/
theorem eq_or_length_lt_of_mentions {f : Formula} {x : Variable} (hx : f.mentions x = true) :
    ofVariable x = f ∨ (ofVariable x).written.length < f.written.length := by
  cases f with
  | letter negated y =>
    have hxy : x = y := by simpa [mentions] using hx
    cases negated <;> simp [ofVariable, written, hxy]
  | binary negated op l r =>
    have hlt := length_operands_lt negated op l r
    right
    show 1 < (binary negated op l r).written.length
    omega

end Formula

namespace Expression

variable {e : Expression}

/-- The label of the whole is longer than that of any other formula that is shown. -/
theorem length_label_lt (he : e.vars = e.root.vars) {f : Formula} (hf : f ∈ e.tabulated)
    (hne : f.label ≠ e.label) : f.label.length < e.label.length := by
  have hor : f = e.root ∨ f.written.length < e.root.written.length := by
    rw [tabulated, List.mem_append, List.mem_append, List.mem_singleton] at hf
    rcases hf with (hf | hf) | hf
    · obtain ⟨x, hx, rfl⟩ := List.mem_map.1 hf
      rw [he, Formula.mem_vars] at hx
      exact Formula.eq_or_length_lt_of_mentions hx
    · exact Formula.eq_or_length_lt_of_mem_subformulas (List.mem_filter.1 hf).1
    · exact .inl hf
  rcases hor with rfl | hlt
  · exact absurd rfl hne
  · rwa [label, Formula.length_label, Formula.length_label]

/-- The labels of the variables, of the negated nodes in post-order, and of the whole. -/
def labels (e : Expression) : List String :=
  e.vars.map toString ++ (e.root.subformulas.filter Formula.isNegated).map Formula.label ++
    [e.label]

theorem map_label_tabulated (e : Expression) : e.tabulated.map Formula.label = e.labels := by
  have hvars : ∀ x : Variable, (Formula.ofVariable x).label = toString x := fun x =>
    String.singleton_eq_ofList.symm
  simp only [tabulated, labels, List.map_append, List.map_map, List.map_singleton,
    Function.comp_def, hvars]
  rfl

/-- The formulas that head the columns, from left to right. -/
def headings (e : Expression) : List Formula :=
  e.tabulated.eraseDups.mergeSort fun f g => f.label.length ≤ g.label.length

theorem mem_headings {f : Formula} : f ∈ e.headings ↔ f ∈ e.tabulated := by
  rw [headings, List.mem_mergeSort, List.mem_eraseDups]

theorem nodup_headings (e : Expression) : e.headings.Nodup :=
  (List.mergeSort_perm _ _).nodup_iff.2 (nodup_eraseDups _)

theorem map_label_headings (e : Expression) :
    e.headings.map Formula.label =
      e.labels.eraseDups.mergeSort fun l l' => l.length ≤ l'.length := by
  rw [headings, ← map_label_tabulated, ← map_eraseDups Formula.label_inj]
  exact List.map_mergeSort fun f _ g _ => rfl

end Expression

/-! ## Columns -/

namespace Table

theorem columnsOf_eq (records : List Record) : columnsOf records =
    (records.map (·.label)).eraseDups.mergeSort fun l l' => l.length ≤ l'.length := by
  rw [columnsOf, FirstSeen.toList_ofList]

variable {e : Expression}

/-- Records that come again bring no label that was not seen before. -/
theorem columns_ofRecords (rows : List (List Record)) :
    (ofRecords e rows).columns = columnsOf rows.flatten := by
  show columnsOf (FirstSeen.ofList rows.flatten).toList = _
  rw [FirstSeen.toList_ofList, columnsOf_eq, columnsOf_eq, eraseDups_map_eraseDups]

theorem map_label_records (a : Assignment) :
    (e.tabulated.map (Formula.record a)).map (·.label) = e.labels := by
  rw [← Expression.map_label_tabulated, List.map_map]
  rfl

/-- The columns are those of the first row: the labels of the formulas that are shown. -/
theorem columns_eq (e : Expression) : e.table.columns =
    e.labels.eraseDups.mergeSort fun l l' => l.length ≤ l'.length := by
  have hlabels : ∀ as : List Assignment,
      ((as.map fun a => e.tabulated.map (Formula.record a)).flatten.map (·.label)) =
        (as.map fun _ => e.labels).flatten := by
    intro as
    rw [List.map_flatten, List.map_map]
    congr 2
    funext a
    rw [Function.comp_apply, ← map_label_records a]
  have hfirst := Assignment.getElem?_enumerate (Assignment.rowCount_pos e.vars.length)
  rw [columns_ofRecords, columnsOf_eq, Expression.rowRecords, hlabels]
  cases henum : Assignment.enumerate e.vars with
  | nil => simp [henum] at hfirst
  | cons a as =>
    rw [List.map_cons, List.flatten_cons, eraseDups_append_of_subset]
    -- The rows after the first have no labels of their own.
    intro label hlabel
    obtain ⟨labels, hlabels, hlabel⟩ := List.mem_flatten.1 hlabel
    obtain ⟨_, -, rfl⟩ := List.mem_map.1 hlabels
    exact hlabel

theorem columns_eq_headings (e : Expression) :
    e.table.columns = e.headings.map Formula.label := by
  rw [columns_eq, Expression.map_label_headings]

theorem nodup_columns (e : Expression) : e.table.columns.Nodup := by
  rw [columns_eq]
  exact (List.mergeSort_perm _ _).nodup_iff.2 (nodup_eraseDups _)

theorem length_label_lt (he : e.vars = e.root.vars) {label : String}
    (hl : label ∈ e.table.columns) (hne : label ≠ e.label) :
    label.length < e.label.length := by
  obtain ⟨f, hf, rfl⟩ := mem_columns.1 hl
  exact Expression.length_label_lt he hf hne

/-- The last column is that of the whole. -/
theorem exists_columns_eq_append (he : e.vars = e.root.vars) :
    ∃ others, e.table.columns = others ++ [e.label] := by
  have hsorted : IsStableSort String.length e.labels.eraseDups e.table.columns := by
    rw [columns_eq]
    exact isStableSort_mergeSort String.length _
  exact hsorted.exists_eq_append (label_mem_columns e) fun _ => length_label_lt he

/-- The column of the whole is found, and it is the last one. -/
theorem idxOf?_label (he : e.vars = e.root.vars) :
    e.table.columns.idxOf? e.label = some e.table.rootColumn ∧
      e.table.rootColumn + 1 = e.table.columns.length := by
  obtain ⟨others, hcolumns⟩ := exists_columns_eq_append he
  have hnodup := nodup_columns e
  have hidx : e.table.columns.idxOf? e.label = some others.length := by
    rw [hcolumns] at hnodup ⊢
    rw [List.idxOf?_eq_some_iff]
    refine ⟨by simp, by simp, fun j hj heq => ?_⟩
    rw [List.getElem_append_left hj] at heq
    exact (List.nodup_append.1 hnodup).2.2 _ (List.getElem_mem hj) _ (List.mem_singleton_self _) heq
  have hroot : e.table.rootColumn = others.length := by
    show (e.table.columns.idxOf? e.label).getD _ = _
    rw [hidx, Option.getD_some]
  rw [hidx, hroot, hcolumns]
  simp

/-! ## Tables of texts -/

/-- **The list of columns is exact**: the labels of the variables, of the negated nodes and of the
whole, each where it first occurs, sorted by length. The first row has them all; they are in
bijection with the formulas they are labels of, and the whole, whose label is the longest, has the
last one. -/
theorem columns_of_parse {s : String} {e : Expression} (h : Expression.parse s = .ok e) :
    e.vars.Pairwise (· < ·) ∧ ∃ t, build e = .ok t ∧
      t.columns = (e.labels.eraseDups.mergeSort fun l l' => l.length ≤ l'.length) ∧
      IsStableSort String.length e.labels.eraseDups t.columns ∧
      (∃ row, Record.ofRow e.root
          ((e.root.subformulas.filter Formula.isNegated).map Subject.ofFormula) e.label
          (.ofRow e.vars 0) = .ok row ∧ t.columns = columnsOf row) ∧
      t.columns.Nodup ∧
      (∃ ms : List Formula, ms.Nodup ∧ (∀ m, m ∈ ms ↔ m ∈ e.tabulated) ∧
        t.columns = ms.map Formula.label) ∧
      (∀ label ∈ t.columns, label ≠ e.label → label.length < e.label.length) ∧
      t.columns.idxOf? e.label = some t.rootColumn ∧ t.rootColumn + 1 = t.columns.length := by
  have he := Expression.vars_of_parse h
  have hascending := Expression.pairwise_vars he
  have hvars := Assignment.vars_ofRow hascending 0
  obtain ⟨hroot, hlast⟩ := idxOf?_label he
  refine ⟨hascending, _, build_eq he, columns_eq e, ?_, ⟨_, Record.ofRow_of_vars hvars he, ?_⟩,
    nodup_columns e, ⟨e.headings, e.nodup_headings, fun _ => Expression.mem_headings,
      columns_eq_headings e⟩, fun _ => length_label_lt he, hroot, hlast⟩
  · rw [columns_eq]
    exact isStableSort_mergeSort String.length _
  · rw [columns_eq, columnsOf_eq, map_label_records]

/-- `~c` is seen after `~(a ^ b)` and comes before it. -/
theorem columns_nand_or_not :
    let f : Formula := .binary false .or
      (.binary true .and (.letter false ⟨'a', rfl⟩) (.letter false ⟨'b', rfl⟩))
      (.letter true ⟨'c', rfl⟩)
    let e : Expression := ⟨f, [⟨'a', rfl⟩, ⟨'b', rfl⟩, ⟨'c', rfl⟩]⟩
    Expression.parse "~(a ^ b) v ~c" = .ok e ∧ ∃ t, build e = .ok t ∧
      t.columns = ["a", "b", "c", "~c", "~(a ^ b)", "~(a ^ b) v ~c"] ∧ t.rootColumn = 5 := by
  intro f e
  have hparse : Expression.parse "~(a ^ b) v ~c" = .ok e :=
    Expression.parse_of_label (by decide) (by decide) (by decide)
  obtain ⟨-, t, hbuild, hcolumns, -, -, -, -, -, -, hlast⟩ := columns_of_parse hparse
  have hlabels : e.labels.eraseDups = ["a", "b", "c", "~(a ^ b)", "~c", "~(a ^ b) v ~c"] := by
    decide +kernel
  have hsorted : t.columns = ["a", "b", "c", "~c", "~(a ^ b)", "~(a ^ b) v ~c"] := by
    rw [hcolumns, hlabels]
    simp [List.mergeSort, String.length]
  rw [hsorted] at hlast
  exact ⟨hparse, t, hbuild, hsorted, Nat.succ.inj hlast⟩

end Table

end TruthTables
