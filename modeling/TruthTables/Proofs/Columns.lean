import TruthTables.Proofs.Enumeration
import TruthTables.Proofs.Evaluation
import TruthTables.Proofs.Grid
import TruthTables.Proofs.Printing

/-!
# Records and columns

The formulas that a table shows (`Expression.tabulated`): the variables, the negated nodes and the
whole. In a row that gives values to exactly the variables, the records are those of these formulas,
each with its truth: `Record.ofRow_of_vars`. As labels tell formulas apart, a row's last record with
the label of a formula has the truth of that formula (`Record.latest?_of_mem`).
-/

set_option autoImplicit false

namespace TruthTables

/-! ## Sets in the order of insertion -/

namespace FirstSeen

variable {α : Type} [DecidableEq α] [Hashable α]

theorem mem_insert {s : FirstSeen α} {x y : α} :
    y ∈ (s.insert x).toList ↔ y ∈ s.toList ∨ y = x := by
  rw [toList_insert]
  split
  · next hx =>
    constructor
    · intro h
      exact .inl h
    · rintro (h | rfl)
      · exact h
      · exact hx
  · rw [List.mem_append, List.mem_singleton]

theorem mem_foldl_insert {xs : List α} {s : FirstSeen α} {y : α} :
    y ∈ (xs.foldl insert s).toList ↔ y ∈ s.toList ∨ y ∈ xs := by
  induction xs generalizing s with
  | nil => simp
  | cons x xs ih => rw [List.foldl_cons, ih, mem_insert, List.mem_cons, or_assoc]

@[simp] theorem mem_ofList {xs : List α} {y : α} : y ∈ (ofList xs).toList ↔ y ∈ xs := by
  unfold ofList
  rw [mem_foldl_insert]
  simp

end FirstSeen

/-! ## Records -/

namespace Expression

/-- The formulas that are shown: the plain variables, the negated nodes in post-order, the whole. -/
def tabulated (e : Expression) : List Formula :=
  e.vars.map Formula.ofVariable ++ e.root.subformulas.filter Formula.isNegated ++ [e.root]

variable {e : Expression}

theorem root_mem_tabulated : e.root ∈ e.tabulated :=
  List.mem_append_right _ (List.mem_singleton_self _)

/-- Values for the variables are enough for every formula that is shown. -/
theorem covers_of_mem_tabulated {a : Assignment} {f : Formula} (ha : a.vars = e.vars)
    (he : e.vars = e.root.vars) (hf : f ∈ e.tabulated) : a.Covers f := by
  have hroot : a.Covers e.root := Assignment.covers_of_vars (ha.trans he)
  rw [tabulated, List.mem_append, List.mem_append, List.mem_singleton] at hf
  rcases hf with (hf | hf) | rfl
  · obtain ⟨x, hx, rfl⟩ := List.mem_map.1 hf
    intro y hy
    have hyx : y = x := by simpa [Formula.ofVariable, Formula.mentions] using hy
    rwa [hyx, ← Assignment.mem_vars, ha]
  · exact hroot.subformula (List.mem_filter.1 hf).1
  · exact hroot

end Expression

namespace Formula

/-- The record of a formula in a row. -/
def record (a : Assignment) (f : Formula) : Record :=
  (Subject.ofFormula f).record a (f.truth a.valuation)

theorem record_ofVariable {a : Assignment} {x : Variable} {b : Bool} (h : a.get? x = some b) :
    Record.ofVariable x b = record a (ofVariable x) := by
  have hlabel : toString x = (ofVariable x).label := String.singleton_eq_ofList
  have hvalue : b = (ofVariable x).truth a.valuation := by
    rw [ofVariable, truth, Assignment.valuation, h, Option.getD_some, Bool.bne_false]
  have hassignment : Assignment.single x b =
      a.restrict fun y => (ofVariable x).vars.contains y := by
    apply Assignment.ext_get?
    intro y
    have hy : (ofVariable x).vars.contains y = true ↔ y = x := by simp [mentions, ofVariable]
    rw [Assignment.get?_single, Assignment.get?_restrict]
    by_cases hyx : y = x
    · rw [if_pos hyx, if_pos (hy.2 hyx), hyx, h]
    · rw [if_neg hyx, if_neg fun hc => hyx (hy.1 hc)]
  rw [Record.ofVariable, hlabel, hassignment]
  exact congrArg _ hvalue

theorem record_of_vars {a : Assignment} {f : Formula} (h : a.vars = f.vars) :
    record a f = ⟨f.label, a, f.truth a.valuation⟩ := by
  have hassignment : (a.restrict fun y => f.vars.contains y) = a := by
    apply Assignment.ext_get?
    intro y
    rw [Assignment.get?_restrict, ← h]
    split
    · rfl
    · next hy =>
      rw [List.contains_iff_mem, Assignment.mem_vars, Option.not_isSome_iff_eq_none] at hy
      exact hy.symm
  show Record.mk _ (a.restrict fun y => f.vars.contains y) _ = _
  rw [hassignment]
  rfl

end Formula

namespace Record

/-- The records of a row are those of the formulas that are shown. -/
theorem ofRow_of_vars {e : Expression} {a : Assignment} (ha : a.vars = e.vars)
    (he : e.vars = e.root.vars) :
    ofRow e.root ((e.root.subformulas.filter Formula.isNegated).map Subject.ofFormula) e.root.label
      a = .ok (e.tabulated.map (Formula.record a)) := by
  have hcovers : a.Covers e.root := Assignment.covers_of_vars (ha.trans he)
  have hvars : a.entries.map (fun entry => ofVariable entry.1 entry.2) =
      (e.vars.map Formula.ofVariable).map (Formula.record a) := by
    rw [← ha, Assignment.vars, List.map_map, List.map_map]
    refine List.map_congr_left fun entry hentry => ?_
    exact Formula.record_ofVariable (Assignment.get?_eq_some_iff.2 hentry)
  have hvalues : ((e.root.subformulas.map fun g => (g, g.truth a.valuation)).filter
      fun node => node.1.isNegated).map (·.2) =
      (e.root.subformulas.filter Formula.isNegated).map (Formula.truth a.valuation) := by
    rw [List.filter_map, List.map_map]
    rfl
  have hwhole := Formula.record_of_vars (ha.trans he)
  unfold ofRow
  rw [Formula.trace_of_covers hcovers]
  simp only [hvalues, hvars, List.zipWith_map, List.zipWith_self, Expression.tabulated,
    List.map_append, List.map_cons, List.map_nil, hwhole]
  rfl

/-- A row that shows a formula last had its label filled with its truth. -/
theorem latest?_of_mem {a : Assignment} {f : Formula} {fs : List Formula} {before : Option Bool}
    (h : f ∈ fs ∨ before = some (f.truth a.valuation)) :
    latest? f.label before (fs.map (Formula.record a)) = some (f.truth a.valuation) := by
  induction fs generalizing before with
  | nil => exact h.resolve_left List.not_mem_nil
  | cons g fs ih =>
    rw [List.map_cons, latest?, List.foldl_cons]
    apply ih
    by_cases hg : g = f
    · right
      rw [hg]
      exact if_pos rfl
    · -- A formula with another label leaves the value as it is.
      have hlabel : (Formula.record a g).label ≠ f.label := fun hl => hg (Formula.label_inj hl)
      rw [if_neg hlabel]
      rcases h with h | h
      · exact .inl ((List.mem_cons.1 h).resolve_left fun hf => hg hf.symm)
      · exact .inr h

end Record

end TruthTables
