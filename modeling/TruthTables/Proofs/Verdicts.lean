import TruthTables.Proofs.Tabulation

/-!
# Verdicts

The results of a table are the truth values that the whole takes under all valuations
(`Table.mem_results`): a row reads off a valuation, and every valuation agrees with some row on the
variables that occur. So a table whose results are all alike tells the value under every assignment
that is enough for the expression, whatever else it gives values to
(`Expression.forall_eval_eq_iff`).
-/

set_option autoImplicit false

namespace TruthTables

namespace Expression

variable {e : Expression}

/-- Every valuation agrees with some row on the variables that occur. -/
theorem exists_mem_enumerate_truth_eq (he : e.vars = e.root.vars) (v : Variable → Bool) :
    ∃ a ∈ Assignment.enumerate e.vars, e.root.truth a.valuation = e.root.truth v := by
  obtain ⟨a, ha, hget⟩ := Assignment.exists_mem_enumerate e.vars v
  refine ⟨a, ha, Formula.truth_congr fun x hx => ?_⟩
  have hx : x ∈ e.vars := by
    rw [he]
    exact Formula.mem_vars.2 hx
  rw [Assignment.valuation, hget x hx, Option.getD_some]

/-- The whole has the value `b` under all valuations exactly if it evaluates to `b` under every
assignment of its variables. -/
theorem forall_eval_iff (he : e.vars = e.root.vars) (b : Bool) :
    (∀ a : Assignment, a.vars = e.vars → e.root.eval a = .ok b) ↔ ∀ v, e.root.truth v = b := by
  constructor
  · intro h v
    obtain ⟨a, ha, htruth⟩ := exists_mem_enumerate_truth_eq he v
    have hvars := (Assignment.mem_enumerate (pairwise_vars he)).1 ha
    have heval := h a hvars
    rw [Formula.eval_of_covers (Assignment.covers_of_vars (hvars.trans he)), htruth] at heval
    exact Except.ok.inj heval
  · intro h a ha
    rw [Formula.eval_of_covers (Assignment.covers_of_vars (ha.trans he)), h]

/-- Nor do values of other variables matter. -/
theorem forall_eval_eq_iff (he : e.vars = e.root.vars) (b : Bool) :
    (∀ a : Assignment, (∀ x ∈ e.vars, (a.get? x).isSome = true) → e.root.eval a = .ok b) ↔
      ∀ v, e.root.truth v = b := by
  constructor
  · intro h
    refine (forall_eval_iff he b).1 fun a ha => h a fun x hx => ?_
    rwa [← Assignment.mem_vars, ha]
  · intro h a ha
    have hcovers : a.Covers e.root := by
      intro x hx
      apply ha
      rw [he]
      exact Formula.mem_vars.2 hx
    rw [Formula.eval_of_covers hcovers, h]

end Expression

namespace Table

variable {e : Expression}

theorem map_assignment_rows (rows : List (List Record)) :
    (ofRecords e rows).rows.map (·.assignment) = Assignment.enumerate e.vars := by
  show (((Assignment.enumerate e.vars).zipIdx).map _).map _ = _
  rw [List.map_map]
  exact List.zipIdx_map_fst 0 _

/-- The results are the truth values of the whole, row by row. -/
theorem results_eq_map_truth (he : e.vars = e.root.vars) : e.table.results =
    (Assignment.enumerate e.vars).map fun a => some (e.root.truth a.valuation) := by
  have hxs := Expression.pairwise_vars he
  rw [results_eq he, ← map_assignment_rows e.rowRecords, List.map_map]
  refine List.map_congr_left fun row hrow => ?_
  have hmem : row.assignment ∈ Assignment.enumerate e.vars := by
    rw [← map_assignment_rows e.rowRecords]
    exact List.mem_map_of_mem hrow
  have hvars := (Assignment.mem_enumerate hxs).1 hmem
  rw [Formula.eval_of_covers (Assignment.covers_of_vars (hvars.trans he))]
  rfl

/-- Each result is a truth value of the whole, and each truth value is a result. -/
theorem mem_results (he : e.vars = e.root.vars) {result : Option Bool} :
    result ∈ e.table.results ↔ ∃ v, result = some (e.root.truth v) := by
  rw [results_eq_map_truth he, List.mem_map]
  constructor
  · rintro ⟨a, -, rfl⟩
    exact ⟨a.valuation, rfl⟩
  · rintro ⟨v, rfl⟩
    obtain ⟨a, ha, htruth⟩ := Expression.exists_mem_enumerate_truth_eq he v
    exact ⟨a, ha, congrArg some htruth⟩

theorem all_results_iff (he : e.vars = e.root.vars) (b : Bool) :
    e.table.results.all (· == some b) = true ↔ ∀ v, e.root.truth v = b := by
  simp only [List.all_eq_true, mem_results he, beq_iff_eq]
  constructor
  · intro h v
    exact Option.some.inj (h _ ⟨v, rfl⟩)
  · rintro h _ ⟨v, rfl⟩
    rw [h v]

/-- If not all results are `b`, one is its opposite. -/
theorem opposite_mem_results (he : e.vars = e.root.vars) {b : Bool}
    (h : e.table.results.all (· == some b) = false) : some (!b) ∈ e.table.results := by
  have hnot : ¬ ∀ v, e.root.truth v = b := by
    rw [← all_results_iff he, h]
    decide
  obtain ⟨v, hv⟩ := Classical.not_forall.1 hnot
  exact (mem_results he).2 ⟨v, congrArg some (Bool.eq_not.2 hv).symm⟩

/-! ## Tables of texts -/

/-- **Verdicts are about all assignments**: an expression is found to be a tautology exactly if it
is true, and a contradiction exactly if it is false, under every assignment that gives values to its
variables, whatever others it gives values to; it is never both, and if it is neither, both values
are among the results. -/
theorem verdicts_of_parse {s : String} {e : Expression} (h : Expression.parse s = .ok e) :
    ∃ t, build e = .ok t ∧
      (t.isTautology = true ↔ ∀ a : Assignment,
        (∀ x ∈ e.vars, (a.get? x).isSome = true) → e.root.eval a = .ok true) ∧
      (t.isContradiction = true ↔ ∀ a : Assignment,
        (∀ x ∈ e.vars, (a.get? x).isSome = true) → e.root.eval a = .ok false) ∧
      ¬ (t.isTautology = true ∧ t.isContradiction = true) ∧
      (t.isTautology = false → t.isContradiction = false →
        some true ∈ t.results ∧ some false ∈ t.results) := by
  have he := Expression.vars_of_parse h
  refine ⟨_, build_eq he, ?_, ?_, ?_, fun htaut hcontra => ?_⟩
  · rw [Expression.forall_eval_eq_iff he]
    exact all_results_iff he true
  · rw [Expression.forall_eval_eq_iff he]
    exact all_results_iff he false
  · rintro ⟨htaut, hcontra⟩
    have htrue := (all_results_iff he true).1 htaut fun _ => true
    have hfalse := (all_results_iff he false).1 hcontra fun _ => true
    rw [htrue] at hfalse
    cases hfalse
  · exact ⟨opposite_mem_results he hcontra, opposite_mem_results he htaut⟩

/-- `a -> (b -> a)` is a tautology and no contradiction. -/
theorem verdicts_weakening :
    let f : Formula := .binary false .implies (.letter false ⟨'a', rfl⟩)
      (.binary false .implies (.letter false ⟨'b', rfl⟩) (.letter false ⟨'a', rfl⟩))
    let e : Expression := ⟨f, [⟨'a', rfl⟩, ⟨'b', rfl⟩]⟩
    Expression.parse "a -> (b -> a)" = .ok e ∧ ∃ t, build e = .ok t ∧
      t.isTautology = true ∧ t.isContradiction = false := by
  intro f e
  have hparse : Expression.parse "a -> (b -> a)" = .ok e :=
    Expression.parse_of_label (by decide) (by decide) (by decide)
  obtain ⟨t, hbuild, htaut, -, hnot, -⟩ := verdicts_of_parse hparse
  have hall : ∀ a : Assignment, (∀ x ∈ e.vars, (a.get? x).isSome = true) →
      e.root.eval a = .ok true := by
    intro a ha
    obtain ⟨p, hp⟩ := Option.isSome_iff_exists.1 (ha ⟨'a', rfl⟩ (by decide))
    obtain ⟨q, hq⟩ := Option.isSome_iff_exists.1 (ha ⟨'b', rfl⟩ (by decide))
    have happly : Connective.implies.apply false p (Connective.implies.apply false q p) = true := by
      cases p <;> cases q <;> rfl
    simp only [e, f, Formula.eval, hp, hq, Bool.bne_false, happly]
  have ht := htaut.2 hall
  exact ⟨hparse, t, hbuild, ht, Bool.eq_false_iff.2 fun hc => hnot ⟨ht, hc⟩⟩

end Table

end TruthTables
