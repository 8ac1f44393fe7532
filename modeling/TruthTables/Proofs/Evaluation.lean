import TruthTables.Evaluation

/-!
# Evaluation under covering assignments

`Formula.truth`: the truth function of a formula under a valuation, that is, values for all
variables, of which only those that occur matter (`Formula.truth_congr`). Where an assignment gives
a value to each variable that occurs (`Assignment.Covers`), evaluation does not fail and gives the
truth (`Formula.eval_of_covers`), and the trace holds every node with its own
(`Formula.trace_of_covers`).
-/

set_option autoImplicit false

namespace TruthTables

/-! ## Truth -/

/-- The value under values for all variables. -/
def Formula.truth (v : Variable → Bool) : Formula → Bool
  | letter negated x => v x != negated
  | binary negated op l r => op.apply negated (l.truth v) (r.truth v)

/-- Valuations that agree on the variables that occur give the same truth. -/
theorem Formula.truth_congr {v w : Variable → Bool} {f : Formula}
    (h : ∀ x, f.mentions x = true → v x = w x) : f.truth v = f.truth w := by
  induction f with
  | letter negated x =>
    have hx : v x = w x := h x (by simp [mentions])
    simp only [truth, hx]
  | binary negated op l r ihl ihr =>
    have hl : l.truth v = l.truth w := ihl fun x hx => h x (by simp [mentions, hx])
    have hr : r.truth v = r.truth w := ihr fun x hx => h x (by simp [mentions, hx])
    simp only [truth, hl, hr]

namespace Assignment

/-- The values of the assignment, and false where it has none. -/
def valuation (a : Assignment) (x : Variable) : Bool := (a.get? x).getD false

theorem get?_of_mem_vars {a : Assignment} {x : Variable} (h : x ∈ a.vars) :
    a.get? x = some (a.valuation x) := by
  obtain ⟨b, hb⟩ := Option.isSome_iff_exists.1 (mem_vars.1 h)
  rw [valuation, hb, Option.getD_some]

/-- Every variable that occurs in the formula has a value. -/
def Covers (a : Assignment) (f : Formula) : Prop :=
  ∀ x, f.mentions x = true → (a.get? x).isSome = true

variable {a : Assignment} {negated : Bool} {op : Connective} {l r : Formula}

theorem covers_of_vars {f : Formula} (h : a.vars = f.vars) : a.Covers f := by
  intro x hx
  rwa [← Formula.mem_vars, ← h, mem_vars] at hx

theorem Covers.get? {x : Variable} (h : a.Covers (.letter negated x)) :
    a.get? x = some (a.valuation x) :=
  get?_of_mem_vars (mem_vars.2 (h x (by simp [Formula.mentions])))

theorem Covers.left (h : a.Covers (.binary negated op l r)) : a.Covers l := by
  intro x hx
  exact h x (by simp [Formula.mentions, hx])

theorem Covers.right (h : a.Covers (.binary negated op l r)) : a.Covers r := by
  intro x hx
  exact h x (by simp [Formula.mentions, hx])

theorem Covers.subformula {f g : Formula} (h : a.Covers f) (hg : g ∈ f.subformulas) :
    a.Covers g := by
  induction f with
  | letter negated x =>
    rw [Formula.subformulas, List.mem_singleton] at hg
    exact hg ▸ h
  | binary negated op l r ihl ihr =>
    rw [Formula.subformulas, List.mem_append, List.mem_append, List.mem_singleton] at hg
    rcases hg with (hg | hg) | rfl
    · exact ihl h.left hg
    · exact ihr h.right hg
    · exact h

end Assignment

/-! ## Evaluation -/

namespace Formula

/-- All nodes are observed, each with its truth. -/
theorem observe_of_covers {σ : Type} (see : σ → Formula → Bool → σ) {a : Assignment} {f : Formula}
    (h : a.Covers f) (s : σ) :
    f.observe see a s =
      (f.subformulas.foldl (fun s g => see s g (g.truth a.valuation)) s,
        .ok (f.truth a.valuation)) := by
  induction f generalizing s with
  | letter negated x =>
    rw [observe, h.get?]
    rfl
  | binary negated op l r ihl ihr =>
    rw [observe, ihl h.left]
    dsimp only
    rw [ihr h.right]
    simp only [subformulas, List.foldl_append, List.foldl_cons, List.foldl_nil, truth]

/-- Evaluation gives the truth. -/
theorem eval_of_covers {a : Assignment} {f : Formula} (h : a.Covers f) :
    f.eval a = .ok (f.truth a.valuation) := by
  rw [← observe_snd (fun _ _ _ => ()) a f (), observe_of_covers _ h]

theorem trace_of_covers {a : Assignment} {f : Formula} (h : a.Covers f) :
    f.trace a =
      ((f.subformulas.map fun g => (g, g.truth a.valuation)).toArray,
        .ok (f.truth a.valuation)) := by
  unfold trace
  rw [observe_of_covers _ h, List.foldl_push_eq_append, Array.empty_append]

end Formula

end TruthTables
