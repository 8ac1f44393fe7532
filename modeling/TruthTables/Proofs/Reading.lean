import TruthTables.Proofs.Scanning
import TruthTables.Proofs.Matching
import TruthTables.Proofs.Folding

/-!
# Reading is the grammar

The three steps of reading canonical text, into tokens (`Token.Scanned`), a level (`Level.Matched`)
and a tree (`Level.tree?`), together are the grammar: `Grammar.IsLevel.read` and
`Grammar.isLevel_of_read`. The grammar gives a text one tree, `Grammar.IsLevel.unique`, and the
bounds on parentheses and heights are all that reading adds to it:
`Expression.ofCanonical_of_isLevel`, `Expression.ofCanonical_of_isLevel_of_deep` and
`Expression.isLevel_of_ofCanonical`.
-/

set_option autoImplicit false

namespace TruthTables

namespace Grammar

open Token Level

/-! ## What the grammar derives is read -/

mutual

/-- An operand is some tokens that, put before a level, give it that operand. -/
theorem IsOperand.read {text : List Char} {f : Formula} (h : IsOperand text f) (p : Nat) :
    ∃ ts, Scanned p text ts ∧ ∀ us after, Matched us after →
      ∃ l, Matched (ts ++ us) l ∧ ∀ s, l.tree? s = (s.operand f).bind after.tree? :=
  match h with
  | .letter negated x => by
    let t : Token := .letter negated x (p + (negation negated).length)
    have ht : t.position + 1 = p + t.chars.length := by simp [t, chars, position, Nat.add_assoc]
    refine ⟨[t], ?_, fun us after ha => ⟨_, .letter negated x _ ha, fun s => rfl⟩⟩
    simpa [t, chars] using Scanned.token ht (.nil _)
  | @IsOperand.group negated body f h => by
    let t : Token := .opening negated (p + (negation negated).length)
    let u : Token := .closing (t.position + 1 + body.length)
    obtain ⟨ts, l, hs, hm, hl⟩ := h.read (t.position + 1)
    have ht : t.position + 1 = p + t.chars.length := by simp [t, chars, position, Nat.add_assoc]
    refine ⟨t :: (ts ++ [u]), ?_, fun us after ha => ?_⟩
    · have := Scanned.token ht (hs.append (.token (t := u) rfl (.nil _)))
      simpa [t, u, chars] using this
    · have hmatched := Matched.group negated t.position u.position hm ha
      refine ⟨_, by simpa [t, u, position] using hmatched, fun s => ?_⟩
      rw [tree?, hl, Option.bind_some, toggle_eq_negateIf]

theorem IsTail.read {text : List Char} {items : List (Connective × Formula)}
    (h : IsTail text items) (p : Nat) :
    ∃ ts l, Scanned p text ts ∧ Matched ts l ∧
      ∀ left, l.tree? (.after left) = some (leftFold left items) :=
  match h with
  | .nil hb => ⟨[], .nil, .of_blank hb p, .nil, fun _ => rfl⟩
  | @IsTail.cons before after text rest op f items hb ha ho ht => by
    let t : Token := .connective op (p + before.length)
    obtain ⟨ts, hs, hts⟩ := ho.read (t.position + 1 + after.length)
    obtain ⟨us, l, hs', hm, hl⟩ := ht.read (t.position + 1 + after.length + text.length)
    obtain ⟨l', hm', hl'⟩ := hts us l hm
    refine ⟨t :: (ts ++ us), .connective op t.position l', ?_, .connective op _ hm', fun left => ?_⟩
    · have hrest := (Scanned.of_blank ha (t.position + 1)).append (hs.append hs')
      exact (Scanned.of_blank hb p).append (.token (t := t) rfl hrest)
    · rw [tree?, Stage.connective, Option.bind_some, hl', Stage.operand, Option.bind_some, hl]
      rfl

theorem IsLevel.read {text : List Char} {f : Formula} (h : IsLevel text f) (p : Nat) :
    ∃ ts l, Scanned p text ts ∧ Matched ts l ∧ l.tree? .start = some f :=
  match h with
  | @IsLevel.mk blank text rest f items hb ho ht => by
    obtain ⟨ts, hs, hts⟩ := ho.read (p + blank.length)
    obtain ⟨us, l, hs', hm, hl⟩ := ht.read (p + blank.length + text.length)
    obtain ⟨l', hm', hl'⟩ := hts us l hm
    refine ⟨ts ++ us, l', (Scanned.of_blank hb p).append (hs.append hs'), hm', ?_⟩
    rw [hl', Stage.operand, Option.bind_some, hl]

end

/-! ## What is read is derived -/

/-- The text brings what has been read of a level to its end. -/
inductive Completes : Stage → List Char → Formula → Prop
  | tail {left : Formula} {text : List Char} {items : List (Connective × Formula)}
    (ht : IsTail text items) : Completes (.after left) text (leftFold left items)
  | operand {s : Stage} {left f : Formula} {blank text rest : List Char}
    {items : List (Connective × Formula)} (hs : s.operand f = some (.after left))
    (hb : Blank blank) (ho : IsOperand text f) (ht : IsTail rest items) :
    Completes s (blank ++ (text ++ rest)) (leftFold left items)

theorem Completes.isTail {left f : Formula} {text : List Char}
    (h : Completes (.after left) text f) :
    ∃ items, IsTail text items ∧ f = leftFold left items := by
  cases h with
  | tail ht => exact ⟨_, ht, rfl⟩
  | operand hs => cases hs

theorem Completes.isLevel {f : Formula} {text : List Char} (h : Completes .start text f) :
    IsLevel text f := by
  cases h with
  | operand hs hb ho ht =>
    cases hs
    exact .mk hb ho ht

theorem Stage.operand_eq_after {s s' : Stage} {f : Formula} (h : s.operand f = some s') :
    ∃ left, s' = .after left := by
  cases s with
  | start => cases h; exact ⟨_, rfl⟩
  | after l => cases h
  | pending l op => cases h; exact ⟨_, rfl⟩

/-- An operand at the front of a text that the rest completes. -/
theorem completes_of_operand {s s' : Stage} {f g : Formula} {blank text rest : List Char}
    (hs : s.operand f = some s') (hb : Blank blank) (ho : IsOperand text f)
    (h : Completes s' rest g) : Completes s (blank ++ (text ++ rest)) g := by
  obtain ⟨left, rfl⟩ := Stage.operand_eq_after hs
  obtain ⟨items, ht, rfl⟩ := h.isTail
  exact .operand hs hb ho ht

theorem completes_of_read {ts : List Token} {l : Level} (hm : Matched ts l) {p : Nat}
    {text : List Char} {s : Stage} {f : Formula} (hs : Scanned p text ts)
    (hl : l.tree? s = some f) : Completes s text f := by
  induction hm generalizing p text s f with
  | nil =>
    cases s with
    | after left => cases hl; exact Completes.tail (.nil hs.blank_of_nil)
    | start => cases hl
    | pending left op => cases hl
  | letter negated x q h ih =>
    obtain ⟨blank, rest, hb, rfl, hr⟩ := hs.uncons
    obtain ⟨s', hs', hl⟩ := Option.bind_eq_some_iff.1 hl
    exact completes_of_operand hs' hb (.letter negated x) (ih hr hl)
  | connective op q h ih =>
    obtain ⟨before, rest, hb, rfl, hr⟩ := hs.uncons
    obtain ⟨s', hs', hl⟩ := Option.bind_eq_some_iff.1 hl
    cases s with
    | start => cases hs'
    | pending left op' => cases hs'
    | after left =>
      cases hs'
      cases ih hr hl with
      | @operand _ left' g after text rest items hs' ha ho ht =>
        cases hs'
        exact Completes.tail (.cons hb ha ho ht)
  | @group ts us body l negated q q' hmb hm ihb ih =>
    obtain ⟨blank, rest, hb, rfl, hr⟩ := hs.uncons
    obtain ⟨inside, rest, rfl, hi, hr⟩ := hr.split
    obtain ⟨g, hg, hl⟩ := Option.bind_eq_some_iff.1 hl
    obtain ⟨s', hs', hl⟩ := Option.bind_eq_some_iff.1 hl
    have ho := IsOperand.group negated (ihb hi hg).isLevel
    rw [toggle_eq_negateIf] at ho
    have := completes_of_operand hs' hb ho (ih hr hl)
    simpa [chars] using this

theorem isLevel_of_read {ts : List Token} {l : Level} {p : Nat} {text : List Char} {f : Formula}
    (hs : Scanned p text ts) (hm : Matched ts l) (hl : l.tree? .start = some f) :
    IsLevel text f := (completes_of_read hm hs hl).isLevel

/-- A text has one tree. -/
theorem IsLevel.unique {text : List Char} {f g : Formula} (hf : IsLevel text f)
    (hg : IsLevel text g) : f = g := by
  obtain ⟨ts, l, hs, hm, hl⟩ := hf.read 0
  obtain ⟨us, l', hs', hm', hl'⟩ := hg.read 0
  obtain rfl := hs.unique hs'
  have : l = l' := by
    have := Nesting.ofTokens_of_matched hm
    rw [Nesting.ofTokens_of_matched hm'] at this
    cases this
    rfl
  rw [this, hl'] at hl
  exact (Option.some.inj hl).symm

end Grammar

/-! ## Variables -/

/-- The variables of a tree are those of the tokens and of what was read before them. -/
theorem Level.mentions_of_tree? {ts : List Token} {l : Level} (hm : Matched ts l) {s : Stage}
    {f : Formula} (hl : l.tree? s = some f) (x : Variable) :
    f.mentions x = (s.mentions x || ts.any fun t => t.mentions x) := by
  induction hm generalizing s f with
  | nil =>
    cases s with
    | after left => cases hl; simp [Stage.mentions]
    | start => cases hl
    | pending left op => cases hl
  | letter negated y q h ih =>
    obtain ⟨s', hs, hl⟩ := Option.bind_eq_some_iff.1 hl
    rw [ih hl, Stage.mentions_operand hs, List.any_cons, Bool.or_assoc]
    rfl
  | connective op q h ih =>
    obtain ⟨s', hs, hl⟩ := Option.bind_eq_some_iff.1 hl
    rw [ih hl, Stage.mentions_connective hs, List.any_cons]
    rfl
  | group negated q q' hb h ihb ih =>
    obtain ⟨g, hg, hl⟩ := Option.bind_eq_some_iff.1 hl
    obtain ⟨s', hs, hl⟩ := Option.bind_eq_some_iff.1 hl
    rw [ih hl, Stage.mentions_operand hs, Formula.mentions_negateIf, ihb hg]
    simp [Stage.mentions, Token.mentions, Bool.or_assoc]

/-! ## Expressions -/

namespace Grammar

theorem IsOperand.exists_not_isWhiteSpace {text : List Char} {f : Formula} (h : IsOperand text f) :
    ∃ c ∈ text, Text.isWhiteSpace c = false := by
  cases h with
  | letter negated x => exact ⟨x.letter, by simp, x.isWhiteSpace_letter⟩
  | group negated h => exact ⟨'(', by simp, rfl⟩

/-- A level is not blank. -/
theorem IsLevel.trim_ne_nil {text : List Char} {f : Formula} (h : IsLevel text f) :
    Text.trim text ≠ [] := by
  obtain ⟨hb, ho, ht⟩ := h
  obtain ⟨c, hc, hw⟩ := ho.exists_not_isWhiteSpace
  intro h
  have hc := Text.trim_eq_nil_iff.1 h c (by simp [hc])
  rw [hw] at hc
  cases hc

end Grammar

namespace Nesting

theorem read_of_matched {ts : List Token} {l : Level} (h : Level.Matched ts l) :
    (ofTokens ts).read = l.result .empty := by
  rw [ofTokens_of_matched h]
  unfold read Level.result
  cases l.fold .empty <;> rfl

/-- Reading succeeds on matched tokens only. -/
theorem matched_of_read {ts : List Token} {o : Operand} (h : (ofTokens ts).read = .ok o) :
    Level.Matched ts (ofTokens ts).current := by
  apply matched_of_fault?
  unfold read at h
  cases hf : (ofTokens ts).fault? with
  | none => rfl
  | some p =>
    rw [hf] at h
    split at h <;> cases h

end Nesting

namespace Expression

open Grammar

theorem varsOf_eq {ts : List Token} {l : Level} {f : Formula} (hm : Level.Matched ts l)
    (hl : l.tree? .start = some f) : varsOf ts = f.vars := by
  unfold varsOf Formula.vars
  congr 1
  funext x
  rw [Level.mentions_of_tree? hm hl, Stage.mentions, Bool.false_or]

/-- A derived text within the bounds is read as its tree. -/
theorem ofCanonical_of_isLevel {text : List Char} {f : Formula} (h : IsLevel text f)
    (hn : nesting text ≤ maxNesting) (hf : f.height ≤ maxNesting) :
    ofCanonical text = .ok ⟨f, f.vars⟩ := by
  obtain ⟨ts, l, hs, hm, hl⟩ := h.read 0
  have hb := l.bounded_result (c := .empty) trivial
  rw [Chain.stage, hl] at hb
  unfold ofCanonical
  rw [if_neg h.trim_ne_nil, Token.scan_of_scanned hs hn]
  simp only [Nesting.read_of_matched hm]
  generalize l.result .empty = r at hb
  cases hb with
  | tree hle => rw [varsOf_eq hm hl]
  | high hlt => omega

/-- A derived text beyond a bound is refused for it. -/
theorem ofCanonical_of_isLevel_of_deep {text : List Char} {f : Formula} (h : IsLevel text f)
    (hd : maxNesting < nesting text ∨ maxNesting < f.height) :
    ∃ p, ofCanonical text = .error (.nestingTooDeep p) := by
  obtain ⟨ts, l, hs, hm, hl⟩ := h.read 0
  unfold ofCanonical
  rw [if_neg h.trim_ne_nil]
  by_cases hn : nesting text ≤ maxNesting
  · have hf := hd.resolve_left (Nat.not_lt.2 hn)
    have hb := l.bounded_result (c := .empty) trivial
    rw [Chain.stage, hl] at hb
    rw [Token.scan_of_scanned hs hn]
    simp only [Nesting.read_of_matched hm]
    generalize l.result .empty = r at hb
    cases hb with
    | tree hle => omega
    | high hlt p => exact ⟨p, rfl⟩
  · obtain ⟨q, hq⟩ := Token.scan_of_scanned_of_deep hs (Nat.zero_le _) (Nat.not_le.1 hn)
    refine ⟨q, ?_⟩
    rw [hq]

/-- What is read has been derived, within the bounds. -/
theorem isLevel_of_ofCanonical {text : List Char} {e : Expression}
    (h : ofCanonical text = .ok e) :
    IsLevel text e.root ∧ nesting text ≤ maxNesting ∧ e.root.height ≤ maxNesting ∧
      e.vars = e.root.vars := by
  unfold ofCanonical at h
  split at h
  · cases h
  · cases hs : Token.scan 0 0 false text with
    | error e => rw [hs] at h; cases h
    | ok ts =>
      obtain ⟨hts, hn⟩ := Token.scanned_of_scan hs (Nat.zero_le _)
      rw [hs] at h
      cases hr : (Nesting.ofTokens ts).read with
      | error e => simp only [hr] at h; cases h
      | ok o =>
        simp only [hr] at h
        cases h
        have hm := Nesting.matched_of_read hr
        rw [Nesting.read_of_matched hm] at hr
        have hb := (Nesting.ofTokens ts).current.bounded_result (c := .empty) trivial
        rw [hr, Chain.stage] at hb
        generalize hl : Level.tree? _ _ = t at hb
        cases hb with
        | tree hle => exact ⟨isLevel_of_read hts hm hl, hn, hle, varsOf_eq hm hl⟩

/-- **Exactly the grammar is read**: a text has at most one tree, and is read as it exactly if its
canonical form is derived within the bounds. Derived text beyond a bound is refused for it, and any
other text for some other fault. -/
theorem parse_iff_isLevel (s : String) :
    let text := canonicalChars s.toList
    (∀ f g, IsLevel text f → IsLevel text g → f = g) ∧
    (∀ e, parse s = .ok e ↔
      IsLevel text e.root ∧ nesting text ≤ maxNesting ∧ e.root.height ≤ maxNesting ∧
        e.vars = e.root.vars) ∧
    (∀ f, IsLevel text f → maxNesting < nesting text ∨ maxNesting < f.height →
      ∃ p, parse s = .error (.nestingTooDeep p)) ∧
    ((∀ f, ¬ IsLevel text f) → ∃ err, parse s = .error err) := by
  intro text
  refine ⟨fun f g hf hg => hf.unique hg, fun e => ⟨isLevel_of_ofCanonical, ?_⟩,
    fun f hl hd => ofCanonical_of_isLevel_of_deep hl hd, fun hn => ?_⟩
  · rintro ⟨hl, hn, hf, hv⟩
    rw [parse, ofCanonical_of_isLevel hl hn hf, ← hv]
  · cases h : parse s with
    | error err => exact ⟨err, rfl⟩
    | ok e => exact absurd (isLevel_of_ofCanonical h).1 (hn e.root)

end Expression

end TruthTables
