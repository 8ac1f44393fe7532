import TruthTables.Proofs.Composition
import TruthTables.Proofs.Verdicts

/-!
# Negating a whole text

A text in parentheses after a negation is read as its tree with the flag of the root flipped, so its
table has the same rows as before. What becomes of the results hangs on the root alone: a variable,
a conjunction or a disjunction heeds its flag (`Formula.HeedsFlag`), and the results are inverted;
an implication or a biconditional does not, and they stay as they are, however often it is negated:
`Table.negation_of_parse`.
-/

set_option autoImplicit false

namespace TruthTables

namespace Formula

/-- The flag of the node inverts its value. -/
def HeedsFlag : Formula → Prop
  | letter _ _ => True
  | binary _ op _ _ => op = .and ∨ op = .or

variable {f : Formula} {v : Variable → Bool}

theorem truth_negate_of_heedsFlag (h : f.HeedsFlag) : f.negate.truth v = !f.truth v := by
  cases f with
  | letter negated x => simp [negate, truth]
  | binary negated op l r => rcases h with rfl | rfl <;> simp [negate, truth, Connective.apply]

theorem truth_negate_of_not_heedsFlag (h : ¬ f.HeedsFlag) : f.negate.truth v = f.truth v := by
  cases f with
  | letter negated x => exact absurd trivial h
  | binary negated op l r =>
    cases op with
    | and => exact absurd (.inl rfl) h
    | or => exact absurd (.inr rfl) h
    | implies => rfl
    | iff => rfl

end Formula

namespace Table

/-! ## Results -/

/-- All inverted values are `b` exactly if all values are its opposite. -/
theorem all_map_not (bs : List Bool) (b : Bool) :
    ((bs.map not).map some).all (· == some b) = (bs.map some).all (· == some !b) := by
  induction bs with
  | nil => rfl
  | cons c bs ih =>
    simp only [List.map_cons, List.all_cons, ih]
    cases b <;> cases c <;> rfl

variable {e : Expression}

/-- The results after a flip of the root's flag. -/
theorem results_negate (he : e.vars = e.root.vars) :
    (⟨e.root.negate, e.vars⟩ : Expression).table.results =
      (Assignment.enumerate e.vars).map fun a => some (e.root.negate.truth a.valuation) := by
  have he' : e.vars = e.root.negate.vars := he.trans (Formula.vars_negateIf true e.root).symm
  exact results_eq_map_truth (e := ⟨e.root.negate, e.vars⟩) he'

/-! ## Tables of texts -/

open Grammar in
/-- **What a negation of the whole does**: a text that is read and not nested to the full depth is
read negated as well, and its table has the same variables and the same rows. Where the root is a
variable, a conjunction or a disjunction, each result is inverted, so that tautologies and
contradictions change places; where it is an implication or a biconditional, negated already or not,
the results are the same. -/
theorem negation_of_parse {s : String} (hs : Text.trim s.toList = s.toList)
    (h : Expression.parse s = .ok e) (hn : nesting (canonicalChars s.toList) < maxNesting) :
    ∃ e' t t', ∃ bs : List Bool, Expression.parse ("~(" ++ s ++ ")") = .ok e' ∧
      build e = .ok t ∧ build e' = .ok t' ∧
      t'.vars = t.vars ∧ t'.rows.map (·.assignment) = t.rows.map (·.assignment) ∧
      t.results = bs.map some ∧
      (e.root.HeedsFlag → t'.results = (bs.map not).map some ∧
        t'.isTautology = t.isContradiction ∧ t'.isContradiction = t.isTautology) ∧
      (¬ e.root.HeedsFlag → t'.results = t.results) := by
  have he := Expression.vars_of_parse h
  have hneg : "~" ∈ negations true := List.mem_cons_self
  have hparse : Expression.parse ("~(" ++ s ++ ")") = .ok ⟨e.root.negate, e.vars⟩ :=
    (Expression.parse_group hneg hs h).1 (Nat.ne_of_lt hn)
  let bs := (Assignment.enumerate e.vars).map fun a => e.root.truth a.valuation
  have hresults : e.table.results = bs.map some := by
    rw [results_eq_map_truth he, List.map_map]
    rfl
  refine ⟨_, _, _, bs, hparse, build_eq he, build_eq (Expression.vars_of_parse hparse), rfl, ?_,
    hresults, fun hheeds => ?_, fun hheeds => ?_⟩
  · exact (map_assignment_rows _).trans (map_assignment_rows _).symm
  · have hresults' : (⟨e.root.negate, e.vars⟩ : Expression).table.results =
        (bs.map not).map some := by
      rw [results_negate he, List.map_map, List.map_map]
      refine List.map_congr_left fun a _ => ?_
      exact congrArg some (Formula.truth_negate_of_heedsFlag hheeds)
    unfold isTautology isContradiction
    rw [hresults', hresults]
    exact ⟨rfl, all_map_not bs true, all_map_not bs false⟩
  · rw [results_negate he, results_eq_map_truth he]
    simp only [Formula.truth_negate_of_not_heedsFlag hheeds]

open Grammar in
/-- `not (a or b)` is inverted when it is negated once more, `~(a -> b)` is not. -/
theorem negation_nor_implies :
    let p : Formula := .letter false ⟨'a', rfl⟩
    let q : Formula := .letter false ⟨'b', rfl⟩
    let nor : Expression := ⟨.binary true .or p q, [⟨'a', rfl⟩, ⟨'b', rfl⟩]⟩
    let implies : Expression := ⟨.binary true .implies p q, [⟨'a', rfl⟩, ⟨'b', rfl⟩]⟩
    (Text.trim "not (a or b)".toList = "not (a or b)".toList ∧
      Expression.parse "not (a or b)" = .ok nor ∧
      nesting (canonicalChars "not (a or b)".toList) < maxNesting ∧
      ∃ e t, Expression.parse "~(not (a or b))" = .ok e ∧ build e = .ok t ∧
        t.results = [some true, some true, some true, some false]) ∧
    Text.trim "~(a -> b)".toList = "~(a -> b)".toList ∧
      Expression.parse "~(a -> b)" = .ok implies ∧
      nesting (canonicalChars "~(a -> b)".toList) < maxNesting ∧
      ∃ e t, Expression.parse "~(~(a -> b))" = .ok e ∧ build e = .ok t ∧
        t.results = [some true, some false, some true, some true] := by
  intro p q nor implies
  have hs : Text.trim "not (a or b)".toList = "not (a or b)".toList := by decide
  have hs' : Text.trim "~(a -> b)".toList = "~(a -> b)".toList := by decide
  have h : Expression.parse "not (a or b)" = .ok nor := by rfl
  have h' : Expression.parse "~(a -> b)" = .ok implies := by rfl
  have hn : nesting (canonicalChars "not (a or b)".toList) < maxNesting := by decide
  have hn' : nesting (canonicalChars "~(a -> b)".toList) < maxNesting := by decide
  refine ⟨⟨hs, h, hn, ?_⟩, hs', h', hn', ?_⟩
  · obtain ⟨e, t, t', bs, hparse, hbuild, hbuild', -, -, hresults, hinverted, -⟩ :=
      negation_of_parse hs h hn
    rw [build_eq (Expression.vars_of_parse h)] at hbuild
    obtain rfl := Except.ok.inj hbuild
    have hbs : [false, false, false, true].map some = bs.map some := by
      rw [← hresults, results_eq_map_truth (Expression.vars_of_parse h)]
      rfl
    obtain rfl := (List.map_inj_right fun _ _ => Option.some.inj).1 hbs
    exact ⟨e, t', hparse, hbuild', (hinverted (.inr rfl)).1⟩
  · obtain ⟨e, t, t', bs, hparse, hbuild, hbuild', -, -, -, -, hsame⟩ :=
      negation_of_parse hs' h' hn'
    rw [build_eq (Expression.vars_of_parse h')] at hbuild
    obtain rfl := Except.ok.inj hbuild
    refine ⟨e, t', hparse, hbuild', ?_⟩
    have hidle : ¬ implies.root.HeedsFlag := by rintro (h | h) <;> cases h
    rw [hsame hidle, results_eq_map_truth (Expression.vars_of_parse h')]
    rfl

end Table

end TruthTables
