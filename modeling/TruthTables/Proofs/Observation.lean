import TruthTables.Proofs.Semantics

/-!
# What an observer sees

`Formula.trace` holds the nodes that get a value, each with its value. Whatever an observer does, it
is shown this trace and nothing else (`Formula.observe_eq_foldl`): all nodes in post-order if
evaluation succeeds, and otherwise those before the leftmost letter without a value. The values are
those that the nodes have by themselves, so that a trace can be relied on also where it is cut off.
-/

set_option autoImplicit false

namespace TruthTables

namespace Formula

variable {a : Assignment} {f : Formula}

/-- The trace of a formula that is not covered. -/
theorem trace_of_not_covers (h : ¬ a.Covers f) :
    ∃ before negated x after, f.subformulas = before ++ letter negated x :: after ∧
      a.get? x = none ∧ (∀ g ∈ before, a.Covers g) ∧
      f.trace a = ((before.map fun g => (g, g.truth a.valuation)).toArray,
        .error (.missingTruthValue x)) := by
  obtain ⟨before, negated, x, after, hsub, hx, hbefore, hobserve⟩ := observe_of_not_covers h
  refine ⟨before, negated, x, after, hsub, hx, hbefore, ?_⟩
  rw [trace, hobserve, List.foldl_push_eq_append, Array.empty_append]

/-- An observer is shown the trace, one node after the other. -/
theorem observe_eq_foldl {σ : Type} (see : σ → Formula → Bool → σ) (a : Assignment) (f : Formula)
    (s : σ) :
    f.observe see a s = ((f.trace a).1.foldl (fun s p => see s p.1 p.2) s, f.eval a) := by
  by_cases h : a.Covers f
  · rw [observe_of_covers see h, trace_of_covers h, eval_of_covers h, List.foldl_toArray,
      List.foldl_map]
  · obtain ⟨before, negated, x, after, hsub, hx, hbefore, hobserve⟩ := observe_of_not_covers h
    have heval : f.eval a = .error (.missingTruthValue x) := by
      rw [← observe_snd (fun _ _ _ => ()) a f (), hobserve]
    rw [hobserve, heval, trace, hobserve, List.foldl_push_eq_append, Array.empty_append,
      List.foldl_toArray, List.foldl_map]

theorem trace_snd (a : Assignment) (f : Formula) : (f.trace a).2 = f.eval a := observe_snd _ a f _

/-- Success is to be covered. -/
theorem covers_of_eval {v : Bool} (h : f.eval a = .ok v) : a.Covers f := by
  by_cases hcovers : a.Covers f
  · exact hcovers
  · obtain ⟨x, -, herror⟩ := eval_of_not_covers hcovers
    rw [herror] at h
    cases h

theorem not_covers_of_eval {e : EvalError} (h : f.eval a = .error e) : ¬ a.Covers f := by
  intro hcovers
  rw [eval_of_covers hcovers] at h
  cases h

/-- Every node is seen with the value that it has by itself. -/
theorem eval_of_mem_trace {p : Formula × Bool} (h : p ∈ (f.trace a).1) :
    p.1.eval a = .ok p.2 := by
  have hpair : ∀ {nodes : List Formula}, (∀ g ∈ nodes, a.Covers g) →
      p ∈ (nodes.map fun g => (g, g.truth a.valuation)).toArray → p.1.eval a = .ok p.2 := by
    intro nodes hnodes hp
    obtain ⟨g, hg, rfl⟩ := List.mem_map.1 (List.mem_toArray.1 hp)
    exact eval_of_covers (hnodes g hg)
  by_cases hcovers : a.Covers f
  · rw [trace_of_covers hcovers] at h
    exact hpair (fun g hg => hcovers.subformula hg) h
  · obtain ⟨before, negated, x, after, -, -, hbefore, htrace⟩ := trace_of_not_covers hcovers
    rw [htrace] at h
    exact hpair hbefore h

/-- **An observer sees the nodes in post-order up to the first failure**: whatever it does with
them, it is shown the nodes of the trace, each with the value that it has by itself, and evaluation
gives the same with an observer and without. These are all nodes on success, and on failure those
before the leftmost letter without a value, whose variable the error names. Only the variables that
occur matter for what is seen. -/
theorem observe_eq_trace (f : Formula) (a : Assignment) :
    (∀ {σ : Type} (see : σ → Formula → Bool → σ) (s : σ), f.observe see a s =
      ((f.trace a).1.foldl (fun s p => see s p.1 p.2) s, f.eval a)) ∧
    (∀ v, f.eval a = .ok v → (f.trace a).1.toList.map (·.1) = f.subformulas ∧
      f.subformulas.length = f.size) ∧
    (∀ e, f.eval a = .error e → ∃ negated x after,
      f.subformulas = (f.trace a).1.toList.map (·.1) ++ letter negated x :: after ∧
        (∀ n y, letter n y ∈ (f.trace a).1.toList.map (·.1) → a.get? y ≠ none) ∧
        a.get? x = none ∧ e = .missingTruthValue x) ∧
    (∀ p ∈ (f.trace a).1, p.1.eval a = .ok p.2) ∧
    ∀ b : Assignment, (∀ x ∈ f.vars, a.get? x = b.get? x) → f.trace a = f.trace b := by
  refine ⟨fun see s => observe_eq_foldl see a f s, fun v h => ?_, fun e h => ?_,
    fun p hp => eval_of_mem_trace hp, fun b h => ?_⟩
  · refine ⟨?_, length_subformulas f⟩
    rw [trace_of_covers (covers_of_eval h), List.map_map]
    exact List.map_id _
  · obtain ⟨before, negated, x, after, hsub, hx, hbefore, htrace⟩ :=
      trace_of_not_covers (not_covers_of_eval h)
    have hseen : (f.trace a).1.toList.map (·.1) = before := by
      rw [htrace, List.map_map]
      exact List.map_id _
    have he : f.eval a = .error (.missingTruthValue x) := by rw [← trace_snd, htrace]
    rw [hseen]
    refine ⟨negated, x, after, hsub, fun n y hy hnone => ?_, hx, Except.error.inj (h.symm.trans he)⟩
    rw [(hbefore _ hy).get?] at hnone
    cases hnone
  · exact observe_congr _ (fun x hx => h x (mem_vars.2 hx)) _

/-- Of `(p ^ q) v r`, only `p` is seen where `q` has no value. -/
theorem trace_and_missing :
    let p : Variable := ⟨'p', rfl⟩
    let q : Variable := ⟨'q', rfl⟩
    let f : Formula := .binary false .or
      (.binary false .and (.letter false p) (.letter false q)) (.letter false ⟨'r', rfl⟩)
    let a := Assignment.single p true
    f.eval a = .error (.missingTruthValue q) ∧ (f.trace a).1 = #[(.letter false p, true)] ∧
      ∃ after, f.subformulas = (f.trace a).1.toList.map (·.1) ++ letter false q :: after := by
  intro p q f a
  have heval : f.eval a = .error (.missingTruthValue q) := rfl
  have htrace : (f.trace a).1 = #[(.letter false p, true)] := rfl
  obtain ⟨negated, x, after, hsub, -, -, he⟩ := (observe_eq_trace f a).2.2.1 _ heval
  obtain rfl : q = x := EvalError.missingTruthValue.inj he
  rw [htrace] at hsub
  obtain rfl : false = negated := (Formula.letter.inj (List.cons.inj (List.cons.inj hsub).2).1).1
  exact ⟨heval, htrace, after, by rw [htrace]; exact hsub⟩

end Formula

end TruthTables
