import TruthTables.Proofs.Evaluation

/-!
# What evaluation means

`Formula.Holds v f` says when a formula is true under values for all variables, in terms of logic
and not of evaluation. An assignment may leave variables without a value; `Formula.letters` lists
the variables from left to right as they are written, so that the first of them without a value is
the one that an error names: `Formula.eval_of_not_covers`. Together, `Formula.eval_meaning` says
what evaluation gives under every assignment.

The structural facts are two: the trace of a covered formula (`Formula.observe_of_covers`), and
`Formula.observe_of_not_covers`, the trace up to the leftmost letter without a value.
-/

set_option autoImplicit false

namespace TruthTables

namespace Formula

/-! ## Truth in terms of logic -/

/-- The formula is true. A flag inverts a variable, a conjunction or a disjunction; on an
implication or a biconditional it means nothing. -/
def Holds (v : Variable → Bool) : Formula → Prop
  | letter false x => v x = true
  | letter true x => v x = false
  | binary false .and l r => l.Holds v ∧ r.Holds v
  | binary true .and l r => ¬ (l.Holds v ∧ r.Holds v)
  | binary false .or l r => l.Holds v ∨ r.Holds v
  | binary true .or l r => ¬ (l.Holds v ∨ r.Holds v)
  | binary _ .implies l r => l.Holds v → r.Holds v
  | binary _ .iff l r => (l.Holds v ↔ r.Holds v)

theorem truth_eq_true_iff {v : Variable → Bool} {f : Formula} :
    f.truth v = true ↔ f.Holds v := by
  induction f with
  | letter negated x => cases negated <;> simp [truth, Holds]
  | binary negated op l r ihl ihr =>
    -- the truth values of the operands are all that is left of them on both sides
    cases op <;> cases negated <;> rw [truth, Holds, ← ihl, ← ihr] <;>
      cases l.truth v <;> cases r.truth v <;> decide

instance (v : Variable → Bool) (f : Formula) : Decidable (f.Holds v) :=
  decidable_of_iff _ truth_eq_true_iff

theorem decide_holds (v : Variable → Bool) (f : Formula) : decide (f.Holds v) = f.truth v := by
  rw [← Bool.coe_iff_coe, decide_eq_true_iff, truth_eq_true_iff]

/-! ## The leftmost letter without a value -/

/-- The variables of the letters, from left to right. -/
def letters : Formula → List Variable
  | letter _ x => [x]
  | binary _ _ l r => l.letters ++ r.letters

/-- The variable of a letter. -/
def letter? : Formula → Option Variable
  | letter _ x => some x
  | binary _ _ _ _ => none

/-- Among the nodes in post-order, the letters stand from left to right. -/
theorem filterMap_subformulas (f : Formula) : f.subformulas.filterMap letter? = f.letters := by
  induction f with
  | letter negated x => rfl
  | binary negated op l r ihl ihr =>
    simp only [subformulas, List.filterMap_append, ihl, ihr, letters]
    exact List.append_nil _

variable {a : Assignment} {f : Formula}

/-- Evaluation stops at the leftmost letter without a value, when the nodes before it in post-order
have been observed; all of these are covered. -/
theorem observe_of_not_covers (h : ¬ a.Covers f) :
    ∃ before negated x after, f.subformulas = before ++ letter negated x :: after ∧
      a.get? x = none ∧ (∀ g ∈ before, a.Covers g) ∧
      ∀ {σ : Type} (see : σ → Formula → Bool → σ) (s : σ), f.observe see a s =
        (before.foldl (fun s g => see s g (g.truth a.valuation)) s,
          .error (.missingTruthValue x)) := by
  induction f with
  | letter negated x =>
    have hx : a.get? x = none := by
      cases hget : a.get? x with
      | none => rfl
      | some b =>
        refine absurd (fun y hy => ?_) h
        obtain rfl : y = x := by simpa [mentions] using hy
        rw [hget]
        rfl
    refine ⟨[], negated, x, [], rfl, hx, fun g hg => absurd hg List.not_mem_nil, fun see s => ?_⟩
    rw [observe, hx]
    rfl
  | binary negated op l r ihl ihr =>
    by_cases hl : a.Covers l
    · -- the left operand is observed as a whole, and its nodes come before those of the right one
      have hr : ¬ a.Covers r := by
        intro hr
        refine h fun x hx => ?_
        rw [mentions, Bool.or_eq_true] at hx
        exact hx.elim (hl x) (hr x)
      obtain ⟨before, n, x, after, hsub, hx, hbefore, hobserve⟩ := ihr hr
      refine ⟨l.subformulas ++ before, n, x, after ++ [binary negated op l r], ?_, hx, ?_, ?_⟩
      · simp [subformulas, hsub]
      · intro g hg
        exact (List.mem_append.1 hg).elim (fun hg => hl.subformula hg) (hbefore g)
      · intro σ see s
        rw [observe, observe_of_covers see hl]
        dsimp only
        rw [hobserve, List.foldl_append]
    · obtain ⟨before, n, x, after, hsub, hx, hbefore, hobserve⟩ := ihl hl
      refine ⟨before, n, x, after ++ (r.subformulas ++ [binary negated op l r]), ?_, hx, hbefore,
        ?_⟩
      · simp [subformulas, hsub]
      · intro σ see s
        rw [observe, hobserve]

/-- The error names the first variable from the left that has no value. -/
theorem eval_of_not_covers (h : ¬ a.Covers f) :
    ∃ x, f.letters.find? (fun y => (a.get? y).isNone) = some x ∧
      f.eval a = .error (.missingTruthValue x) := by
  obtain ⟨before, negated, x, after, hsub, hx, hbefore, hobserve⟩ := observe_of_not_covers h
  refine ⟨x, ?_, ?_⟩
  · rw [← filterMap_subformulas, hsub, List.filterMap_append, List.filterMap_cons, letter?,
      List.find?_eq_some_iff_append]
    refine ⟨by rw [hx]; rfl, _, _, rfl, fun y hy => ?_⟩
    obtain ⟨g, hg, hgy⟩ := List.mem_filterMap.1 hy
    cases g with
    | letter n z =>
      obtain rfl : z = y := Option.some.inj hgy
      have hget := (hbefore _ hg).get?
      rw [hget]
      rfl
    | binary n op l r => cases hgy
  · rw [← observe_snd (fun _ _ _ => ()) a f (), hobserve]

/-! ## What evaluation does not depend on -/

/-- Only the variables that occur matter, their values as well as their having one. -/
theorem observe_congr {σ : Type} (see : σ → Formula → Bool → σ) {b : Assignment}
    (h : ∀ x, f.mentions x = true → a.get? x = b.get? x) (s : σ) :
    f.observe see a s = f.observe see b s := by
  induction f generalizing s with
  | letter negated x =>
    have hx : a.get? x = b.get? x := h x (by simp [mentions])
    rw [observe, observe, hx]
  | binary negated op l r ihl ihr =>
    have hl : ∀ s, l.observe see a s = l.observe see b s :=
      ihl fun x hx => h x (by simp [mentions, hx])
    have hr : ∀ s, r.observe see a s = r.observe see b s :=
      ihr fun x hx => h x (by simp [mentions, hx])
    simp only [observe, hl, hr]

/-- The formulas are the same up to the flags of implications and biconditionals. -/
inductive SameUpToIdleFlags : Formula → Formula → Prop
  | letter (negated : Bool) (x : Variable) :
    SameUpToIdleFlags (letter negated x) (letter negated x)
  | binary (negated : Bool) (op : Connective) {l l' r r' : Formula}
    (hl : SameUpToIdleFlags l l') (hr : SameUpToIdleFlags r r') :
    SameUpToIdleFlags (binary negated op l r) (binary negated op l' r')
  | idle (negated negated' : Bool) {op : Connective} {l l' r r' : Formula}
    (hop : op = .implies ∨ op = .iff) (hl : SameUpToIdleFlags l l')
    (hr : SameUpToIdleFlags r r') :
    SameUpToIdleFlags (binary negated op l r) (binary negated' op l' r')

theorem SameUpToIdleFlags.eval_eq {g : Formula} (h : f.SameUpToIdleFlags g) (a : Assignment) :
    f.eval a = g.eval a := by
  induction h with
  | letter negated x => rfl
  | binary negated op hl hr ihl ihr => simp only [eval, ihl, ihr]
  | @idle negated negated' op l l' r r' hop hl hr ihl ihr =>
    have happly : op.apply negated = op.apply negated' := by
      rcases hop with rfl | rfl <;> rfl
    simp only [eval, ihl, ihr, happly]

/-! ## Evaluation -/

/-- **Evaluation is strict and means truth**: under an assignment with values for all variables that
occur, it says whether the formula holds; if one has no value, it fails for the leftmost letter
without one, whatever the other operands are. Nothing else matters to it, neither other variables
nor the flags of implications and biconditionals. -/
theorem eval_meaning (f : Formula) (a : Assignment) :
    ((∀ x ∈ f.vars, ∃ b, a.get? x = some b) → f.eval a = .ok (decide (f.Holds a.valuation))) ∧
    ((∃ x ∈ f.vars, a.get? x = none) →
      ∃ x, f.letters.find? (fun y => (a.get? y).isNone) = some x ∧
        f.eval a = .error (.missingTruthValue x)) ∧
    (∀ b : Assignment, (∀ x ∈ f.vars, a.get? x = b.get? x) → f.eval a = f.eval b) ∧
    ∀ g, f.SameUpToIdleFlags g → f.eval a = g.eval a := by
  refine ⟨fun h => ?_, fun ⟨x, hx, hnone⟩ => ?_, fun b h => ?_, fun g h => h.eval_eq a⟩
  · have hcovers : a.Covers f := by
      intro x hx
      exact Option.isSome_iff_exists.2 (h x (mem_vars.2 hx))
    rw [eval_of_covers hcovers, decide_holds]
  · refine eval_of_not_covers fun hcovers => ?_
    have hsome := hcovers x (mem_vars.1 hx)
    rw [hnone] at hsome
    cases hsome
  · have hmentions : ∀ x, f.mentions x = true → a.get? x = b.get? x :=
      fun x hx => h x (mem_vars.2 hx)
    rw [← observe_snd (fun _ _ _ => ()) a f (), observe_congr _ hmentions, observe_snd]

/-- `p v ~q` has no value where `q` has none, although `p` is true. -/
theorem eval_or_missing :
    let p : Variable := ⟨'p', rfl⟩
    let q : Variable := ⟨'q', rfl⟩
    let f : Formula := .binary false .or (.letter false p) (.letter true q)
    let a := Assignment.single p true
    (∃ x ∈ f.vars, a.get? x = none) ∧ f.eval a = .error (.missingTruthValue q) := by
  intro p q f a
  have hnone : ∃ x ∈ f.vars, a.get? x = none := ⟨q, by decide, rfl⟩
  obtain ⟨x, hx, heval⟩ := (eval_meaning f a).2.1 hnone
  have hq : f.letters.find? (fun y => (a.get? y).isNone) = some q := by decide
  obtain rfl : x = q := Option.some.inj (hx.symm.trans hq)
  exact ⟨hnone, heval⟩

/-- The flag of `~(p -> q)` means nothing. -/
example : (binary true .implies (.letter false ⟨'p', rfl⟩) (.letter false ⟨'q', rfl⟩)).eval
    (.ofPairs [(⟨'p', rfl⟩, true), (⟨'q', rfl⟩, false)]) = .ok false := rfl

end Formula

end TruthTables
