import Mathlib.Algebra.Ring.Nat
import Mathlib.Data.List.Nodup
import TruthTables.Proofs.Headings

/-!
# Projections

`Formula.projections`: a record for each assignment of the formula's own variables. In a row the
record of a formula is the projection whose assignment is part of the row
(`Formula.record_eq_of_within`), and each projection is the record in some row
(`Formula.exists_record_eq`). So the records of a table are the projections of the formulas that
head its columns: `Table.records_perm`.
-/

set_option autoImplicit false

namespace TruthTables

/-! ## Parts of assignments -/

namespace Assignment

/-- What the one gives a value to has the same value in the other. -/
def Within (a b : Assignment) : Prop := ∀ x v, a.get? x = some v → b.get? x = some v

variable {a b : Assignment} {f : Formula}

theorem within_restrict (a : Assignment) (p : Variable → Bool) : (a.restrict p).Within a := by
  intro x v h
  rw [get?_restrict] at h
  split at h
  · exact h
  · cases h

/-- A part is determined by its variables. -/
theorem Within.eq_restrict (h : b.Within a) : b = a.restrict fun x => b.vars.contains x := by
  apply ext_get?
  intro x
  rw [get?_restrict]
  by_cases hx : x ∈ b.vars
  · obtain ⟨v, hv⟩ := Option.isSome_iff_exists.1 (mem_vars.1 hx)
    rw [if_pos (List.contains_iff_mem.2 hx), hv, h x v hv]
  · rw [if_neg fun hc => hx (List.contains_iff_mem.1 hc)]
    rwa [mem_vars, Option.not_isSome_iff_eq_none] at hx

theorem Within.covers (h : b.Within a) (hb : b.Covers f) : a.Covers f := by
  intro x hx
  obtain ⟨v, hv⟩ := Option.isSome_iff_exists.1 (hb x hx)
  rw [h x v hv]
  rfl

/-- The part that a formula looks at gives values to exactly its variables. -/
theorem Covers.vars_restrict (h : a.Covers f) :
    (a.restrict fun x => f.vars.contains x).vars = f.vars := by
  refine Variable.eq_of_mem_iff (pairwise_vars _) f.pairwise_vars fun x => ?_
  rw [mem_vars, get?_restrict]
  by_cases hx : x ∈ f.vars
  · rw [if_pos (List.contains_iff_mem.2 hx)]
    exact iff_of_true (h x (Formula.mem_vars.1 hx)) hx
  · rw [if_neg fun hc => hx (List.contains_iff_mem.1 hc)]
    exact iff_of_false (by decide) hx

end Assignment

/-! ## Projections -/

namespace Formula

/-- The records of the formula under all assignments of its own variables. -/
def projections (f : Formula) : List Record :=
  (Assignment.enumerate f.vars).map fun a => record a f

variable {f g : Formula} {r r' : Record} {a : Assignment}

theorem mem_projections : r ∈ f.projections ↔
    r.label = f.label ∧ r.assignment.vars = f.vars ∧ f.eval r.assignment = .ok r.value := by
  constructor
  · intro hr
    obtain ⟨a, ha, rfl⟩ := List.mem_map.1 hr
    have hvars := (Assignment.mem_enumerate f.pairwise_vars).1 ha
    rw [record_of_vars hvars]
    exact ⟨rfl, hvars, eval_of_covers (Assignment.covers_of_vars hvars)⟩
  · rintro ⟨hlabel, hvars, heval⟩
    refine List.mem_map.2 ⟨r.assignment, (Assignment.mem_enumerate f.pairwise_vars).2 hvars, ?_⟩
    rw [eval_of_covers (Assignment.covers_of_vars hvars)] at heval
    rw [record_of_vars hvars, ← hlabel, Except.ok.inj heval]

theorem nodup_projections (f : Formula) : f.projections.Nodup := by
  have hnodup := Assignment.nodup_enumerate (Variable.nodup_of_pairwise_lt f.pairwise_vars)
  refine List.pairwise_map.2 (hnodup.imp_of_mem fun {a b} ha hb hne heq => hne ?_)
  rw [record_of_vars ((Assignment.mem_enumerate f.pairwise_vars).1 ha),
    record_of_vars ((Assignment.mem_enumerate f.pairwise_vars).1 hb)] at heq
  exact congrArg Record.assignment heq

theorem length_projections (f : Formula) : f.projections.length = 2 ^ f.vars.length := by
  rw [projections, List.length_map, Assignment.length_enumerate]
  rfl

theorem eq_of_mem_projections (hr : r ∈ f.projections) (hr' : r' ∈ f.projections)
    (h : r.assignment = r'.assignment) : r = r' := by
  obtain ⟨hlabel, -, heval⟩ := mem_projections.1 hr
  obtain ⟨hlabel', -, heval'⟩ := mem_projections.1 hr'
  have hvalue : r.value = r'.value := by
    rw [h, heval'] at heval
    exact (Except.ok.inj heval).symm
  cases r
  cases r'
  simp_all

/-- Different formulas have no projection in common. -/
theorem eq_of_mem_projections_of_mem (hf : r ∈ f.projections) (hg : r ∈ g.projections) :
    f = g :=
  label_inj ((mem_projections.1 hf).1.symm.trans (mem_projections.1 hg).1)

/-- What a row says of the other variables does not matter to the record. -/
theorem record_mem_projections (h : a.Covers f) : record a f ∈ f.projections := by
  have hvars := h.vars_restrict
  refine mem_projections.2 ⟨rfl, hvars, ?_⟩
  show f.eval (a.restrict fun x => f.vars.contains x) = .ok (f.truth a.valuation)
  rw [eval_of_covers (Assignment.covers_of_vars hvars)]
  refine congrArg Except.ok (truth_congr fun x hx => ?_)
  have hmem : f.vars.contains x = true := List.contains_iff_mem.2 (mem_vars.2 hx)
  rw [Assignment.valuation, Assignment.valuation, Assignment.get?_restrict, if_pos hmem]

/-- The record in a row is the projection that the row extends. -/
theorem record_eq_of_within (hr : r ∈ f.projections) (h : r.assignment.Within a) :
    record a f = r := by
  have hvars := (mem_projections.1 hr).2.1
  have hcovers := h.covers (Assignment.covers_of_vars hvars)
  refine eq_of_mem_projections (record_mem_projections hcovers) hr ?_
  have hpart := h.eq_restrict
  rw [hvars] at hpart
  exact hpart.symm

/-- Every projection is the record in some row of a table that has the formula's variables. -/
theorem exists_record_eq {xs : List Variable} (hsub : f.vars ⊆ xs) (hr : r ∈ f.projections) :
    ∃ a ∈ Assignment.enumerate xs, record a f = r := by
  obtain ⟨a, ha, hget⟩ := Assignment.exists_mem_enumerate xs r.assignment.valuation
  refine ⟨a, ha, record_eq_of_within hr fun x v hv => ?_⟩
  have hx : x ∈ f.vars := by
    rw [← (mem_projections.1 hr).2.1, Assignment.mem_vars, hv]
    rfl
  rw [hget x (hsub hx), Assignment.valuation, hv]
  rfl

end Formula

/-! ## Records of a table -/

namespace Expression

variable {e : Expression}

theorem vars_subset_of_mem_tabulated (he : e.vars = e.root.vars) {f : Formula}
    (hf : f ∈ e.tabulated) : f.vars ⊆ e.vars := by
  have hrow := Assignment.vars_ofRow (pairwise_vars he) 0
  intro x hx
  rw [← hrow, Assignment.mem_vars]
  exact covers_of_mem_tabulated hrow he hf x (Formula.mem_vars.1 hx)

end Expression

namespace Table

variable {e : Expression} {r : Record} {f : Formula}

theorem mem_records (he : e.vars = e.root.vars) :
    r ∈ e.table.records ↔ ∃ f ∈ e.tabulated, r ∈ f.projections := by
  have hxs := Expression.pairwise_vars he
  show r ∈ (FirstSeen.ofList e.rowRecords.flatten).toList ↔ _
  rw [FirstSeen.mem_ofList, List.mem_flatten]
  constructor
  · -- A row has values for all that a formula mentions, so its record is a projection.
    rintro ⟨row, hrow, hr⟩
    obtain ⟨a, ha, rfl⟩ := List.mem_map.1 hrow
    obtain ⟨f, hf, rfl⟩ := List.mem_map.1 hr
    have hvars := (Assignment.mem_enumerate hxs).1 ha
    exact ⟨f, hf, Formula.record_mem_projections (Expression.covers_of_mem_tabulated hvars he hf)⟩
  · -- The other variables take any values, so some row extends the projection.
    rintro ⟨f, hf, hr⟩
    have hsub := Expression.vars_subset_of_mem_tabulated he hf
    obtain ⟨a, ha, rfl⟩ := Formula.exists_record_eq hsub hr
    exact ⟨_, List.mem_map_of_mem ha, List.mem_map_of_mem hf⟩

theorem nodup_records (e : Expression) : e.table.records.Nodup :=
  (FirstSeen.ofList e.rowRecords.flatten).nodup

/-- The records with the label of a formula are its projections. -/
theorem mem_projections_of_label (he : e.vars = e.root.vars) (hr : r ∈ e.table.records)
    (hl : r.label = f.label) : r ∈ f.projections := by
  obtain ⟨g, -, hg⟩ := (mem_records he).1 hr
  have hgf : g = f := Formula.label_inj ((Formula.mem_projections.1 hg).1.symm.trans hl)
  exact hgf ▸ hg

/-- The records are the projections of the formulas that head the columns. -/
theorem records_perm (he : e.vars = e.root.vars) :
    e.table.records.Perm (e.headings.flatMap Formula.projections) := by
  have hnodup : (e.headings.flatMap Formula.projections).Nodup := by
    refine List.nodup_flatMap.2 ⟨fun f _ => f.nodup_projections, e.nodup_headings.imp ?_⟩
    intro f g hne r hf hg
    exact hne (Formula.eq_of_mem_projections_of_mem hf hg)
  refine (List.perm_ext_iff_of_nodup (nodup_records e) hnodup).2 fun r => ?_
  rw [mem_records he, List.mem_flatMap]
  simp only [Expression.mem_headings]

theorem filter_records_perm (he : e.vars = e.root.vars) (hf : f ∈ e.tabulated) :
    (e.table.records.filter fun r => r.label = f.label).Perm f.projections := by
  refine (List.perm_ext_iff_of_nodup ((nodup_records e).filter _) f.nodup_projections).2 ?_
  intro r
  rw [List.mem_filter, decide_eq_true_eq]
  constructor
  · rintro ⟨hr, hl⟩
    exact mem_projections_of_label he hr hl
  · intro hr
    exact ⟨(mem_records he).2 ⟨f, hf, hr⟩, (Formula.mem_projections.1 hr).1⟩

theorem length_records (he : e.vars = e.root.vars) :
    e.table.records.length = (e.headings.map fun f => 2 ^ f.vars.length).sum := by
  rw [(records_perm he).length_eq, List.length_flatMap]
  simp only [Formula.length_projections]

/-! ## Records and rows -/

section

variable {a : Assignment}

theorem record_mem_records (he : e.vars = e.root.vars) (ha : a.vars = e.vars)
    (hf : f ∈ e.tabulated) : Formula.record a f ∈ e.table.records :=
  (mem_records he).2 ⟨f, hf,
    Formula.record_mem_projections (Expression.covers_of_mem_tabulated ha he hf)⟩

theorem eq_record_of_within (he : e.vars = e.root.vars) (hr : r ∈ e.table.records)
    (hl : r.label = f.label) (h : r.assignment.Within a) : r = Formula.record a f :=
  (Formula.record_eq_of_within (mem_projections_of_label he hr hl) h).symm

/-- One record of each column belongs to a row. -/
theorem existsUnique_record_within (he : e.vars = e.root.vars) (ha : a.vars = e.vars)
    (hf : f ∈ e.tabulated) :
    ∃! r, r ∈ e.table.records ∧ r.label = f.label ∧ r.assignment.Within a := by
  refine ⟨Formula.record a f,
    ⟨record_mem_records he ha hf, rfl, Assignment.within_restrict _ _⟩, ?_⟩
  rintro r ⟨hr, hl, h⟩
  exact eq_record_of_within he hr hl h

/-- One record of each column belongs to an assignment of the variables of its formula. -/
theorem existsUnique_record (he : e.vars = e.root.vars) (hf : f ∈ e.tabulated)
    (ha : a.vars = f.vars) :
    ∃! r, r ∈ e.table.records ∧ r.label = f.label ∧ r.assignment = a := by
  have hmem : Formula.record a f ∈ f.projections :=
    Formula.record_mem_projections (Assignment.covers_of_vars ha)
  have hassignment : (Formula.record a f).assignment = a := by rw [Formula.record_of_vars ha]
  refine ⟨Formula.record a f, ⟨(mem_records he).2 ⟨f, hf, hmem⟩, rfl, hassignment⟩, ?_⟩
  rintro r ⟨hr, hl, rfl⟩
  exact Formula.eq_of_mem_projections (mem_projections_of_label he hr hl) hmem hassignment.symm

end

/-! ## Tables of texts -/

/-- **The records are the projections of the table**: each column has one record for each assignment
of its formula's variables, with the formula's value, and no more; and a cell's value is that of the
one record of its column that the row extends. -/
theorem records_of_parse {s : String} {e : Expression} (h : Expression.parse s = .ok e) :
    ∃ t, build e = .ok t ∧ t.records.Nodup ∧
      (∀ m ∈ e.tabulated, m.label ∈ t.columns ∧
        (∀ a : Assignment, a.vars = m.vars →
          ∃! r, r ∈ t.records ∧ r.label = m.label ∧ r.assignment = a) ∧
        (∀ r ∈ t.records, r.label = m.label →
          r.assignment.vars = m.vars ∧ m.eval r.assignment = .ok r.value) ∧
        (t.records.filter fun r => r.label = m.label).length = 2 ^ m.vars.length) ∧
      (∃ ms : List Formula, t.columns = ms.map Formula.label ∧ (∀ m ∈ ms, m ∈ e.tabulated) ∧
        t.records.length = (ms.map fun m => 2 ^ m.vars.length).sum) ∧
      (∀ r ∈ t.records, r.label ∈ t.columns) ∧
      ∀ (k : Nat) (row : Row), t.rows[k]? = some row →
        ∀ (j : Nat) (label : String), t.columns[j]? = some label →
        (∃! r, r ∈ t.records ∧ r.label = label ∧ r.assignment.Within row.assignment) ∧
        ∀ r ∈ t.records, r.label = label → r.assignment.Within row.assignment →
          row.values[j]? = some (some r.value) := by
  have he := Expression.vars_of_parse h
  have hvars := Expression.pairwise_vars he
  refine ⟨_, build_eq he, nodup_records e, fun m hm => ⟨mem_columns.2 ⟨m, hm, rfl⟩,
    fun a ha => existsUnique_record he hm ha, fun r hr hl => ?_, ?_⟩,
    ⟨e.headings, columns_eq_headings e, fun m => Expression.mem_headings.1, length_records he⟩,
    fun r hr => ?_, fun k row hk j label hj => ?_⟩
  · exact (Formula.mem_projections.1 (mem_projections_of_label he hr hl)).2
  · rw [(filter_records_perm he hm).length_eq, Formula.length_projections]
  · obtain ⟨m, hm, hr⟩ := (mem_records he).1 hr
    exact mem_columns.2 ⟨m, hm, (Formula.mem_projections.1 hr).1.symm⟩
  · obtain ⟨hlt, rfl⟩ := eq_of_getElem?_rows hk
    obtain ⟨m, hm, rfl⟩ := mem_columns.1 (List.mem_of_getElem? hj)
    refine ⟨existsUnique_record_within he (Assignment.vars_ofRow hvars k) hm,
      fun r hr hl hw => ?_⟩
    rw [eq_record_of_within he hr hl hw, List.getElem?_map, hj, Option.map_some,
      cell?_tabulated hm hlt]
    rfl

/-- The whole comes as a negated node and as the whole, in four rows, and has four records; `a` has
two. -/
theorem records_nand :
    let f : Formula := .binary true .and (.letter false ⟨'a', rfl⟩) (.letter false ⟨'b', rfl⟩)
    let e : Expression := ⟨f, [⟨'a', rfl⟩, ⟨'b', rfl⟩]⟩
    Expression.parse "~(a ^ b)" = .ok e ∧ ∃ t, build e = .ok t ∧
      (t.records.filter fun r => r.label = "~(a ^ b)").length = 4 ∧
      (t.records.filter fun r => r.label = "a").length = 2 := by
  intro f e
  have hparse : Expression.parse "~(a ^ b)" = .ok e :=
    Expression.parse_of_label (by decide) (by decide) (by decide)
  obtain ⟨t, hbuild, -, hcolumns, -⟩ := records_of_parse hparse
  obtain ⟨-, -, -, hwhole⟩ := hcolumns f (by decide)
  obtain ⟨-, -, -, ha⟩ := hcolumns (.letter false ⟨'a', rfl⟩) (by decide)
  have hlabel : f.label = "~(a ^ b)" := by decide
  have hlabel' : (Formula.letter false ⟨'a', rfl⟩).label = "a" := by decide
  rw [hlabel] at hwhole
  rw [hlabel'] at ha
  exact ⟨hparse, t, hbuild, hwhole, ha⟩

end Table

end TruthTables
