import TruthTables.Expression

/-!
# The tree of a level

`Level.tree?` folds a level without any bound on heights: it fails exactly where operands and
connectives do not alternate. `Level.bounded_result` says that the bounded fold, `Level.result`,
gives this tree with its height, unless it is higher than `maxNesting`, and then the error is
`nestingTooDeep`; where there is no tree it fails. A chain is lazy, a connective is applied only
when the next one comes, so the lemma rests on `Chain.stage`, which applies it at once, and on the
invariant `Chain.Accurate`.
-/

set_option autoImplicit false

namespace TruthTables

/-! ## Folding without a bound -/

/-- How far a level has been read. -/
inductive Stage
  | start
  | after (left : Formula)
  | pending (left : Formula) (op : Connective)

namespace Stage

/-- Takes an operand. -/
def operand (f : Formula) : Stage → Option Stage
  | start => some (after f)
  | after _ => none
  | pending l op => some (after (.binary false op l f))

/-- Takes a connective. -/
def connective (op : Connective) : Stage → Option Stage
  | after l => some (pending l op)
  | _ => none

/-- What has been read amounts to a tree. -/
def tree? : Stage → Option Formula
  | after l => some l
  | _ => none

/-- The height of the tree that has been read so far. -/
def height : Stage → Nat
  | start => 0
  | after l => l.height
  | pending l _ => l.height

end Stage

/-- The tree that a level amounts to when it is read from some stage on. -/
def Level.tree? : Level → Stage → Option Formula
  | nil, s => s.tree?
  | letter negated x _ rest, s => (s.operand (.letter negated x)).bind rest.tree?
  | connective op _ rest, s => (s.connective op).bind rest.tree?
  | group negated _ body rest, s =>
    (body.tree? .start).bind fun f => (s.operand (f.negateIf negated)).bind rest.tree?

/-! ## Heights -/

@[simp] theorem Formula.height_negateIf (negated : Bool) (f : Formula) :
    (f.negateIf negated).height = f.height := by
  cases negated
  · rfl
  · exact f.height_negate

theorem Stage.height_operand {s s' : Stage} {f : Formula} (h : s.operand f = some s') :
    s.height ≤ s'.height ∧ f.height ≤ s'.height := by
  cases s with
  | start => cases h; exact ⟨Nat.zero_le _, Nat.le_refl _⟩
  | after l => cases h
  | pending l op =>
    cases h
    simp only [height, Formula.height]
    omega

theorem Stage.height_connective {s s' : Stage} {op : Connective} (h : s.connective op = some s') :
    s'.height = s.height := by
  cases s with
  | start => cases h
  | after l => cases h; rfl
  | pending l op' => cases h

/-- Reading on never makes a tree less high. -/
theorem Level.height_le_of_tree? {l : Level} {s : Stage} {f : Formula} (h : l.tree? s = some f) :
    s.height ≤ f.height := by
  induction l generalizing s f with
  | nil =>
    cases s with
    | after l => cases h; exact Nat.le_refl _
    | start => cases h
    | pending l op => cases h
  | letter negated x p rest ih =>
    obtain ⟨s', hs, hr⟩ := Option.bind_eq_some_iff.1 h
    have hheight := Stage.height_operand hs
    have hrest := ih hr
    omega
  | connective op p rest ih =>
    obtain ⟨s', hs, hr⟩ := Option.bind_eq_some_iff.1 h
    have hheight := Stage.height_connective hs
    have hrest := ih hr
    omega
  | group negated p body rest _ ih =>
    obtain ⟨g, _, h⟩ := Option.bind_eq_some_iff.1 h
    obtain ⟨s', hs, hr⟩ := Option.bind_eq_some_iff.1 h
    have hheight := Stage.height_operand hs
    have hrest := ih hr
    omega

/-! ## Variables -/

/-- Whether a variable occurs in what has been read so far. -/
def Stage.mentions : Stage → Variable → Bool
  | start, _ => false
  | after l, x => l.mentions x
  | pending l _, x => l.mentions x

@[simp] theorem Formula.mentions_negateIf (negated : Bool) (f : Formula) :
    (f.negateIf negated).mentions = f.mentions := by
  cases negated
  · rfl
  · exact f.mentions_negate

theorem Stage.mentions_operand {s s' : Stage} {f : Formula} (h : s.operand f = some s')
    (x : Variable) : s'.mentions x = (s.mentions x || f.mentions x) := by
  cases s with
  | start => cases h; rfl
  | after l => cases h
  | pending l op => cases h; rfl

theorem Stage.mentions_connective {s s' : Stage} {op : Connective}
    (h : s.connective op = some s') (x : Variable) : s'.mentions x = s.mentions x := by
  cases s with
  | start => cases h
  | after l => cases h; rfl
  | pending l op' => cases h

/-! ## Chains as stages -/

/-- The height is the tree's and within the bound. -/
def Operand.Accurate (o : Operand) : Prop := o.height = o.formula.height ∧ o.height ≤ maxNesting

namespace Chain

/-- The stage of a chain whose connectives have all been applied. -/
def stage : Chain → Stage
  | empty => .start
  | operand l => .after l.formula
  | pending l op _ => .pending l.formula op
  | complete l op _ r => .after (.binary false op l.formula r.formula)

/-- All operands are accurate. -/
def Accurate : Chain → Prop
  | empty => True
  | operand l => l.Accurate
  | pending l _ _ => l.Accurate
  | complete l _ _ r => l.Accurate ∧ r.Accurate

end Chain

theorem Operand.accurate_letter (negated : Bool) (x : Variable) : (letter negated x).Accurate :=
  ⟨rfl, show 1 ≤ maxNesting by decide⟩

theorem Operand.Accurate.negateIf {o : Operand} (h : o.Accurate) (negated : Bool) :
    (o.negateIf negated).Accurate :=
  ⟨by simpa [Operand.negateIf] using h.1, h.2⟩

/-- Two operands are joined where the tree is within the bound. -/
theorem Operand.join_of_le {l r : Operand} {op : Connective} {p : Nat} (hl : l.Accurate)
    (hr : r.Accurate) (h : (Formula.binary false op l.formula r.formula).height ≤ maxNesting) :
    l.join op p r = .ok ⟨.binary false op l.formula r.formula,
      (Formula.binary false op l.formula r.formula).height⟩ := by
  simp only [Formula.height] at h ⊢
  simp only [join, hl.1, hr.1]
  rw [if_pos h]

theorem Operand.join_of_high {l r : Operand} {op : Connective} {p : Nat} (hl : l.Accurate)
    (hr : r.Accurate) (h : maxNesting < (Formula.binary false op l.formula r.formula).height) :
    l.join op p r = .error (.nestingTooDeep p) := by
  simp only [Formula.height] at h
  simp only [join, hl.1, hr.1]
  rw [if_neg (Nat.not_le.2 h)]

namespace Chain

theorem pushOperand_of_stage {c : Chain} {o : Operand} {s : Stage} (hc : c.Accurate)
    (ho : o.Accurate) (h : c.stage.operand o.formula = some s) (p : Nat) :
    ∃ c', c.pushOperand p o = .ok c' ∧ c'.stage = s ∧ c'.Accurate := by
  cases c with
  | empty => cases h; exact ⟨_, rfl, rfl, ho⟩
  | operand l => cases h
  | pending l op q => cases h; exact ⟨_, rfl, rfl, hc, ho⟩
  | complete l op q r => cases h

theorem pushOperand_of_stage_none {c : Chain} {o : Operand}
    (h : c.stage.operand o.formula = none) (p : Nat) : ∃ e, c.pushOperand p o = .error e := by
  cases c with
  | empty => cases h
  | operand l => exact ⟨_, rfl⟩
  | pending l op q => cases h
  | complete l op q r => exact ⟨_, rfl⟩

theorem pushConnective_of_stage {c : Chain} {op : Connective} {s : Stage} (hc : c.Accurate)
    (h : c.stage.connective op = some s) (hs : s.height ≤ maxNesting) (p : Nat) :
    ∃ c', c.pushConnective p op = .ok c' ∧ c'.stage = s ∧ c'.Accurate := by
  cases c with
  | empty => cases h
  | operand l => cases h; exact ⟨_, rfl, rfl, hc⟩
  | pending l op' q => cases h
  | complete l op' q r =>
    cases h
    refine ⟨pending ⟨_, _⟩ op p, ?_, rfl, rfl, hs⟩
    rw [pushConnective, Operand.join_of_le hc.1 hc.2 hs]
    rfl

/-- The connective before is applied only now, and its tree may be too high. -/
theorem pushConnective_of_high {c : Chain} {op : Connective} {s : Stage} (hc : c.Accurate)
    (h : c.stage.connective op = some s) (hs : maxNesting < s.height) (p : Nat) :
    ∃ q, c.pushConnective p op = .error (.nestingTooDeep q) := by
  cases c with
  | empty => cases h
  | operand l =>
    cases h
    obtain ⟨hheight, hle⟩ : l.height = l.formula.height ∧ l.height ≤ maxNesting := hc
    simp only [Stage.height] at hs
    omega
  | pending l op' q => cases h
  | complete l op' q r =>
    cases h
    refine ⟨q, ?_⟩
    rw [pushConnective, Operand.join_of_high hc.1 hc.2 hs]
    rfl

theorem pushConnective_of_stage_none {c : Chain} {op : Connective}
    (h : c.stage.connective op = none) (p : Nat) : ∃ e, c.pushConnective p op = .error e := by
  cases c with
  | empty => exact ⟨_, rfl⟩
  | operand l => cases h
  | pending l op' q => exact ⟨_, rfl⟩
  | complete l op' q r => cases h

end Chain

/-! ## The bounded result -/

/-- What becomes of a tree without a bound: an operand, or an error if it is too high or missing. -/
inductive Bounded : Option Formula → Except ParseError Operand → Prop
  | tree {f : Formula} (h : f.height ≤ maxNesting) : Bounded (some f) (.ok ⟨f, f.height⟩)
  | high {f : Formula} (h : maxNesting < f.height) (p : Nat) :
    Bounded (some f) (.error (.nestingTooDeep p))
  | none (e : ParseError) : Bounded none (.error e)

theorem Bounded.of_high {t : Option Formula} (h : ∀ f, t = some f → maxNesting < f.height)
    (p : Nat) : Bounded t (.error (.nestingTooDeep p)) := by
  cases t with
  | none => exact .none _
  | some f => exact .high (h f rfl) p

theorem Chain.bounded_finish {c : Chain} (hc : c.Accurate) : Bounded c.stage.tree? c.finish := by
  cases c with
  | empty => exact .none _
  | operand l =>
    obtain ⟨f, n⟩ := l
    obtain ⟨rfl, hn⟩ : n = f.height ∧ n ≤ maxNesting := hc
    exact .tree hn
  | pending l op p => exact .none _
  | complete l op p r =>
    by_cases h : (Formula.binary false op l.formula r.formula).height ≤ maxNesting
    · rw [finish, Operand.join_of_le hc.1 hc.2 h]
      exact .tree h
    · have h := Nat.not_le.1 h
      rw [finish, Operand.join_of_high hc.1 hc.2 h]
      exact .high h p

namespace Level

/-- The operand that a chain amounts to when a level is appended to it. -/
def result (l : Level) (c : Chain) : Except ParseError Operand := (l.fold c).bind Chain.finish

theorem fold_letter (negated : Bool) (x : Variable) (p : Nat) (rest : Level) (c : Chain) :
    (letter negated x p rest).fold c = (c.pushOperand p (.letter negated x)).bind rest.fold := by
  rw [fold]
  cases c.pushOperand p (.letter negated x) <;> rfl

theorem fold_connective (op : Connective) (p : Nat) (rest : Level) (c : Chain) :
    (connective op p rest).fold c = (c.pushConnective p op).bind rest.fold := by
  rw [fold]
  cases c.pushConnective p op <;> rfl

theorem fold_group (negated : Bool) (p : Nat) (body rest : Level) (c : Chain) :
    (group negated p body rest).fold c =
      (body.result .empty).bind fun o =>
        (c.pushOperand p (o.negateIf negated)).bind rest.fold := by
  rw [fold, result]
  cases body.fold .empty with
  | error e => rfl
  | ok inner =>
    simp only [Except.bind]
    cases inner.finish with
    | error e => rfl
    | ok o => simp only []; cases c.pushOperand p (o.negateIf negated) <;> rfl

theorem bind_fold_finish (rest : Level) (x : Except ParseError Chain) :
    (x.bind rest.fold).bind Chain.finish = x.bind rest.result := by
  cases x <;> rfl

theorem result_letter (negated : Bool) (x : Variable) (p : Nat) (rest : Level) (c : Chain) :
    (letter negated x p rest).result c =
      (c.pushOperand p (.letter negated x)).bind rest.result := by
  rw [result, fold_letter, bind_fold_finish]

theorem result_connective (op : Connective) (p : Nat) (rest : Level) (c : Chain) :
    (connective op p rest).result c = (c.pushConnective p op).bind rest.result := by
  rw [result, fold_connective, bind_fold_finish]

theorem result_group (negated : Bool) (p : Nat) (body rest : Level) (c : Chain) :
    (group negated p body rest).result c =
      (body.result .empty).bind fun o =>
        (c.pushOperand p (o.negateIf negated)).bind rest.result := by
  rw [result, fold_group]
  cases body.result .empty with
  | error e => rfl
  | ok o => exact bind_fold_finish rest _

/-- Pushing an operand and reading on is bounded if reading on is. -/
theorem bounded_pushOperand {rest : Level} {c : Chain} {o : Operand} (hc : c.Accurate)
    (ho : o.Accurate) (p : Nat)
    (ih : ∀ c' : Chain, c'.Accurate → Bounded (rest.tree? c'.stage) (rest.result c')) :
    Bounded ((c.stage.operand o.formula).bind rest.tree?)
      ((c.pushOperand p o).bind rest.result) := by
  cases hs : c.stage.operand o.formula with
  | none =>
    obtain ⟨e, he⟩ := Chain.pushOperand_of_stage_none hs p
    rw [he]
    exact .none e
  | some s =>
    obtain ⟨c', hc', rfl, ha⟩ := Chain.pushOperand_of_stage hc ho hs p
    rw [hc']
    exact ih c' ha

/-- The bounded result of a level is that of its tree. -/
theorem bounded_result (l : Level) {c : Chain} (hc : c.Accurate) :
    Bounded (l.tree? c.stage) (l.result c) := by
  induction l generalizing c with
  | nil => exact Chain.bounded_finish hc
  | letter negated x p rest ih =>
    rw [result_letter]
    exact bounded_pushOperand hc (Operand.accurate_letter negated x) p fun c' => ih
  | connective op p rest ih =>
    rw [result_connective, tree?]
    cases hs : c.stage.connective op with
    | none =>
      obtain ⟨e, he⟩ := Chain.pushConnective_of_stage_none hs p
      rw [he]
      exact .none e
    | some s =>
      by_cases hle : s.height ≤ maxNesting
      · obtain ⟨c', hc', rfl, ha⟩ := Chain.pushConnective_of_stage hc hs hle p
        rw [hc']
        exact ih ha
      · have hlt := Nat.not_le.1 hle
        obtain ⟨q, hq⟩ := Chain.pushConnective_of_high hc hs hlt p
        rw [hq]
        refine .of_high (fun f hf => ?_) q
        have hrest := height_le_of_tree? hf
        omega
  | group negated p body rest ihb ih =>
    rw [result_group, tree?]
    have hb := ihb (c := .empty) trivial
    rw [Chain.stage] at hb
    generalize body.tree? .start = t at hb
    generalize body.result .empty = r at hb
    cases hb with
    | none e => exact .none e
    | @tree f h =>
      have ho : (⟨f, f.height⟩ : Operand).Accurate := ⟨rfl, h⟩
      exact bounded_pushOperand hc (ho.negateIf negated) p fun c' => ih
    | @high f h q =>
      -- the tree of the whole contains the group, so it is too high as well if there is one
      refine .of_high (fun g hg => ?_) q
      rw [Option.bind_some] at hg
      obtain ⟨s', hs, hr⟩ := Option.bind_eq_some_iff.1 hg
      have hheight := (Stage.height_operand hs).2
      have hrest := height_le_of_tree? hr
      rw [Formula.height_negateIf] at hheight
      omega

end Level

end TruthTables
