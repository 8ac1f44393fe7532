import TruthTables.Proofs.Diagnosis

/-!
# Parentheses and their partners

Two parentheses are partners if the text between them is balanced (`Grammar.Balanced`). A `)` is
stray if no `(` before it is its partner, a `(` is unclosed if no `)` after it is. A fault of
parentheses is reported exactly there: at the first stray `)`, or, where none is stray, at the
first unclosed `(` (`Expression.unbalanced_at_fault`).

Reading never pairs parentheses up; it counts. `Grammar.openAfter?` is such a count from the left,
and `Grammar.exists_opening` finds partners from it. What reading from the right leaves pending is
tied to it by `Token.Scanned.isSome_openAfter?`.
-/

set_option autoImplicit false

namespace TruthTables

namespace Grammar

/-- Every parenthesis of the text has its partner in it. -/
inductive Balanced : List Char → Prop
  | nil : Balanced []
  | other {c : Char} {cs : List Char} (ho : c ≠ '(') (hc : c ≠ ')') (h : Balanced cs) :
    Balanced (c :: cs)
  | group {body rest : List Char} (hb : Balanced body) (h : Balanced rest) :
    Balanced ('(' :: (body ++ ')' :: rest))

/-- A `)` after this text has a partner. -/
def HasOpening (before : List Char) : Prop :=
  ∃ outer body, before = outer ++ '(' :: body ∧ Balanced body

/-- A `(` before this text has a partner. -/
def HasClosing (after : List Char) : Prop :=
  ∃ body outer, after = body ++ ')' :: outer ∧ Balanced body

/-- At byte `p` stands a `)` without a partner. -/
def StrayAt (text : List Char) (p : Nat) : Prop :=
  ∃ before after, Text.Place text p before ')' after ∧ ¬ HasOpening before

/-- At byte `p` stands a `(` without a partner. -/
def UnclosedAt (text : List Char) (p : Nat) : Prop :=
  ∃ before after, Text.Place text p before '(' after ∧ ¬ HasClosing after

/-- Every parenthesis of the text has a partner. -/
def ParenthesesMatch (text : List Char) : Prop := ∀ p, ¬ StrayAt text p ∧ ¬ UnclosedAt text p

/-! ## Balanced text -/

theorem Balanced.flat {cs : List Char} (h : ∀ c ∈ cs, c ≠ '(' ∧ c ≠ ')') : Balanced cs := by
  induction cs with
  | nil => exact .nil
  | cons c cs ih =>
    have hc := h c List.mem_cons_self
    exact .other hc.1 hc.2 (ih fun d hd => h d (List.mem_cons_of_mem c hd))

theorem Balanced.append {cs ds : List Char} (hc : Balanced cs) (hd : Balanced ds) :
    Balanced (cs ++ ds) := by
  induction hc with
  | nil => exact hd
  | other ho hc h ih => exact .other ho hc ih
  | @group body rest hb h ihb ih =>
    have hgroup := Balanced.group hb ih
    simpa using hgroup

theorem Balanced.blank {cs : List Char} (h : Blank cs) : Balanced cs := by
  refine .flat fun c hc => ?_
  rcases Text.eq_of_ascii (h c hc) with rfl | rfl | rfl | rfl | rfl <;> decide

theorem Balanced.negation (negated : Bool) : Balanced (negation negated) := by
  cases negated
  · exact .nil
  · exact .other (by decide) (by decide) .nil

theorem HasClosing.append {after : List Char} (h : HasClosing after) (more : List Char) :
    HasClosing (after ++ more) := by
  obtain ⟨body, outer, rfl, hb⟩ := h
  exact ⟨body, outer ++ more, by simp, hb⟩

/-- In balanced text, a `(` has its partner. -/
theorem Balanced.hasClosing {cs : List Char} (h : Balanced cs) :
    ∀ {before after : List Char}, cs = before ++ '(' :: after → HasClosing after := by
  induction h with
  | nil => intro before after heq; cases before <;> cases heq
  | other ho hc h ih =>
    intro before after heq
    cases before with
    | nil => exact absurd (List.cons.inj heq).1 ho
    | cons d before => exact ih (List.cons.inj heq).2
  | @group body rest hb h ihb ih =>
    intro before after heq
    cases before with
    | nil =>
      obtain rfl := (List.cons.inj heq).2
      exact ⟨body, rest, rfl, hb⟩
    | cons d before =>
      -- the `(` stands in the group or after it
      rcases List.append_eq_append_iff.1 (List.cons.inj heq).2 with ⟨x, rfl, hx⟩ | ⟨x, rfl, hx⟩
      · cases x with
        | nil => exact absurd (List.cons.inj hx).1 (by decide)
        | cons e x => exact ih (List.cons.inj hx).2
      · cases x with
        | nil => exact absurd (List.cons.inj hx).1 (by decide)
        | cons e x =>
          obtain ⟨rfl, rfl⟩ := List.cons.inj hx
          exact (ihb rfl).append _

/-! ## Counting from the left -/

/-- How many parentheses are open after the text, where `depth` are open before it; none if some `)`
closes nothing. -/
def openAfter? (depth : Nat) : List Char → Option Nat
  | [] => some depth
  | c :: rest =>
    if c = '(' then openAfter? (depth + 1) rest
    else if c = ')' then if depth = 0 then none else openAfter? (depth - 1) rest
    else openAfter? depth rest

@[simp] theorem openAfter?_opening (depth : Nat) (rest : List Char) :
    openAfter? depth ('(' :: rest) = openAfter? (depth + 1) rest := rfl

@[simp] theorem openAfter?_closing_zero (rest : List Char) :
    openAfter? 0 (')' :: rest) = none := rfl

@[simp] theorem openAfter?_closing_succ (depth : Nat) (rest : List Char) :
    openAfter? (depth + 1) (')' :: rest) = openAfter? depth rest := rfl

theorem openAfter?_other {c : Char} (ho : c ≠ '(') (hc : c ≠ ')') (depth : Nat)
    (rest : List Char) : openAfter? depth (c :: rest) = openAfter? depth rest := by
  rw [openAfter?, if_neg ho, if_neg hc]

theorem openAfter?_blank {c : Char} (hc : Text.isAsciiWhiteSpace c = true) (depth : Nat)
    (rest : List Char) : openAfter? depth (c :: rest) = openAfter? depth rest := by
  rcases Text.eq_of_ascii hc with rfl | rfl | rfl | rfl | rfl <;> rfl

theorem openAfter?_append (depth : Nat) (cs ds : List Char) :
    openAfter? depth (cs ++ ds) = (openAfter? depth cs).bind fun d => openAfter? d ds := by
  induction cs generalizing depth with
  | nil => rfl
  | cons c cs ih =>
    by_cases ho : c = '('
    · subst ho
      exact ih _
    · by_cases hc : c = ')'
      · subst hc
        cases depth with
        | zero => rfl
        | succ depth => exact ih depth
      · rw [List.cons_append, openAfter?_other ho hc, openAfter?_other ho hc, ih]

theorem Balanced.openAfter? {cs : List Char} (h : Balanced cs) (depth : Nat) :
    openAfter? depth cs = some depth := by
  induction h generalizing depth with
  | nil => rfl
  | other ho hc h ih => rw [openAfter?_other ho hc, ih]
  | group hb h ihb ih =>
    rw [openAfter?_opening, openAfter?_append, ihb, Option.bind_some, openAfter?_closing_succ, ih]

/-- A `)` after balanced text is stray. -/
theorem Balanced.not_hasOpening {cs : List Char} (h : Balanced cs) : ¬ HasOpening cs := by
  rintro ⟨outer, body, rfl, hb⟩
  have hcount := h.openAfter? 0
  rw [openAfter?_append] at hcount
  obtain ⟨d, -, hd⟩ := Option.bind_eq_some_iff.1 hcount
  rw [openAfter?_opening, hb.openAfter?] at hd
  cases hd

/-- The last parenthesis that is open is followed by balanced text. -/
theorem exists_opening {cs : List Char} {d : Nat} (h : openAfter? 0 cs = some (d + 1)) :
    ∃ outer body, cs = outer ++ '(' :: body ∧ Balanced body ∧ openAfter? 0 outer = some d := by
  -- from the right: a `)` at the end closes one group, and what is open before that group is wanted
  induction hn : cs.length using Nat.strongRecOn generalizing cs d with
  | ind n ih =>
    rcases List.eq_nil_or_concat cs with rfl | ⟨init, c, rfl⟩
    · cases h
    rw [List.concat_eq_append] at h hn ⊢
    rw [List.length_append, List.length_singleton] at hn
    rw [openAfter?_append] at h
    obtain ⟨k, hk, hc⟩ := Option.bind_eq_some_iff.1 h
    by_cases hopening : c = '('
    · subst hopening
      obtain rfl : k = d := by simpa [openAfter?] using hc
      exact ⟨init, [], rfl, .nil, hk⟩
    · by_cases hclosing : c = ')'
      · subst hclosing
        cases k with
        | zero => cases hc
        | succ k =>
          obtain rfl : k = d + 1 := by simpa [openAfter?] using hc
          obtain ⟨outer, body, rfl, hb, ho⟩ := ih _ (by omega) hk rfl
          rw [List.length_append, List.length_cons] at hn
          obtain ⟨outer', body', rfl, hb', ho'⟩ := ih _ (by omega) ho rfl
          refine ⟨outer', body' ++ '(' :: (body ++ ')' :: []), by simp, ?_, ho'⟩
          exact hb'.append (.group hb .nil)
      · rw [openAfter?_other hopening hclosing] at hc
        obtain rfl : k = d + 1 := by simpa [openAfter?] using hc
        obtain ⟨outer, body, rfl, hb, ho⟩ := ih _ (by omega) hk rfl
        exact ⟨outer, body ++ [c], by simp, hb.append (.other hopening hclosing .nil), ho⟩

/-- Where the count goes on, the `)` has a partner. -/
theorem hasOpening_of_openAfter? {before after : List Char}
    (h : openAfter? 0 (before ++ ')' :: after) ≠ none) : HasOpening before := by
  rw [openAfter?_append] at h
  cases hk : openAfter? 0 before with
  | none =>
    rw [hk] at h
    exact absurd rfl h
  | some k =>
    cases k with
    | zero =>
      rw [hk] at h
      exact absurd rfl h
    | succ d =>
      obtain ⟨outer, body, heq, hb, -⟩ := exists_opening hk
      exact ⟨outer, body, heq, hb⟩

theorem not_strayAt_of_openAfter? {text : List Char} (h : openAfter? 0 text ≠ none) (p : Nat) :
    ¬ StrayAt text p := by
  rintro ⟨before, after, hplace, hno⟩
  rw [hplace.text_eq] at h
  exact hno (hasOpening_of_openAfter? h)

theorem Balanced.parenthesesMatch {text : List Char} (h : Balanced text) :
    ParenthesesMatch text := by
  refine fun p => ⟨not_strayAt_of_openAfter? (by rw [h.openAfter?]; exact Option.some_ne_none _) p,
    ?_⟩
  rintro ⟨before, after, hplace, hno⟩
  exact hno (h.hasClosing hplace.text_eq)

end Grammar

open Grammar

/-! ## Tokens -/

namespace Token

theorem balanced_letter (negated : Bool) (x : Variable) (p : Nat) :
    Balanced (letter negated x p).chars :=
  (Balanced.negation negated).append
    (.other (x.letter_ne (by decide)) (x.letter_ne (by decide)) .nil)

theorem balanced_connective (op : Connective) (p : Nat) : Balanced (connective op p).chars := by
  have hop : op.sign ≠ '(' ∧ op.sign ≠ ')' := by cases op <;> decide
  exact .other hop.1 hop.2 .nil

namespace Scanned

theorem le_position {p : Nat} {cs : List Char} {ts : List Token} (h : Scanned p cs ts) :
    ∀ t ∈ ts, p ≤ t.position := by
  induction h with
  | nil p => exact fun t ht => absurd ht List.not_mem_nil
  | blank hc h ih => exact fun t ht => Nat.le_of_succ_le (ih t ht)
  | @token p t cs ts ht h ih =>
    have hpos : 1 ≤ t.chars.length := by
      obtain ⟨negated, hchars⟩ := t.chars_eq
      simp [hchars]
    intro u hu
    rcases List.mem_cons.1 hu with rfl | hu
    · omega
    · have hle := ih u hu
      omega

/-- Matched tokens have balanced text. -/
theorem balanced {ts : List Token} {l : Level} (hm : Level.Matched ts l) {p : Nat}
    {cs : List Char} (h : Scanned p cs ts) : Balanced cs := by
  induction hm generalizing p cs with
  | nil => exact .blank h.blank_of_nil
  | letter negated x q hm ih =>
    obtain ⟨blank, rest, hb, rfl, hrest⟩ := h.uncons
    exact (Balanced.blank hb).append ((balanced_letter negated x q).append (ih hrest))
  | connective op q hm ih =>
    obtain ⟨blank, rest, hb, rfl, hrest⟩ := h.uncons
    exact (Balanced.blank hb).append ((balanced_connective op q).append (ih hrest))
  | @group ts us body l negated q q' hmb hm ihb ih =>
    obtain ⟨blank, rest, hb, rfl, hrest⟩ := h.uncons
    obtain ⟨inside, rest, rfl, hinside, hrest⟩ := hrest.split
    have hgroup := Balanced.group (ihb hinside) (ih hrest)
    have htext := (Balanced.blank hb).append ((Balanced.negation negated).append hgroup)
    simpa [chars] using htext

/-- The `)` that reading leaves pending are those that go below the count from the left. -/
theorem isSome_openAfter? {p : Nat} {cs : List Char} {ts : List Token} (h : Scanned p cs ts)
    (depth : Nat) :
    (openAfter? depth cs).isSome = true ↔ (Nesting.ofTokens ts).pending.length ≤ depth := by
  induction h generalizing depth with
  | nil p => exact iff_of_true rfl (Nat.zero_le depth)
  | blank hc h ih => rw [openAfter?_blank hc, ih]
  | @token p t cs ts ht h ih =>
    rw [Nesting.ofTokens, List.foldr_cons, ← Nesting.ofTokens]
    cases t with
    | opening negated q =>
      rw [chars, List.append_assoc, openAfter?_append, (Balanced.negation negated).openAfter?,
        Option.bind_some, List.singleton_append, openAfter?_opening, ih, Nesting.prepend]
      cases (Nesting.ofTokens ts).pending with
      | nil => simp
      | cons q outer => simp
    | closing q =>
      rw [chars, List.singleton_append, Nesting.prepend, List.length_cons]
      cases depth with
      | zero => simp
      | succ depth => rw [openAfter?_closing_succ, ih, Nat.add_le_add_iff_right]
    | letter negated x q =>
      rw [openAfter?_append, (balanced_letter negated x q).openAfter?, Option.bind_some, ih,
        Nesting.prepend]
    | connective op q =>
      rw [openAfter?_append, (balanced_connective op q).openAfter?, Option.bind_some, ih,
        Nesting.prepend]

/-- Where reading leaves no `)` pending, none of them closes a `(` before the text. -/
theorem not_hasClosing {p : Nat} {cs : List Char} {ts : List Token} (h : Scanned p cs ts)
    (hpending : (Nesting.ofTokens ts).pending = []) : ¬ HasClosing cs := by
  rintro ⟨body, outer, rfl, hb⟩
  have hcount := (h.isSome_openAfter? 0).2 (by rw [hpending]; exact Nat.le_refl 0)
  rw [openAfter?_append, hb.openAfter?] at hcount
  cases hcount

end Scanned

end Token

namespace Nesting

/-- The `(` that is kept as unclosed is one of the tokens. -/
theorem opening_mem_of_unclosed {ts : List Token} {p : Nat} (h : (ofTokens ts).unclosed = some p) :
    ∃ negated, .opening negated p ∈ ts := by
  induction ts with
  | nil => cases h
  | cons t ts ih =>
    have hrest : (ofTokens ts).unclosed = some p → ∃ negated, .opening negated p ∈ t :: ts := by
      intro hp
      obtain ⟨negated, hmem⟩ := ih hp
      exact ⟨negated, List.mem_cons_of_mem t hmem⟩
    rw [ofTokens, List.foldr_cons, ← ofTokens] at h
    cases t with
    | letter negated x q => exact hrest h
    | connective op q => exact hrest h
    | closing q => exact hrest h
    | opening negated q =>
      rw [prepend] at h
      cases hpending : (ofTokens ts).pending with
      | nil =>
        rw [hpending] at h
        obtain rfl := Option.some.inj h
        exact ⟨negated, List.mem_cons_self⟩
      | cons q' outer =>
        rw [hpending] at h
        exact hrest h

/-- The `(` at fault finds no `)` pending: it would be closed then, and the `(` that is kept would
come later. -/
theorem pending_eq_nil_of_fault {us vs : List Token} {l : Level} {negated : Bool} {q : Nat}
    (hm : Level.Matched us l)
    (hq : (ofTokens (us ++ .opening negated q :: vs)).unclosed = some q)
    (hvs : ∀ t ∈ vs, q < t.position) : (ofTokens vs).pending = [] := by
  rw [ofTokens, List.foldr_append, foldr_of_matched hm, List.foldr_cons, ← ofTokens, prepend] at hq
  cases hpending : (ofTokens vs).pending with
  | nil => rfl
  | cons c outer =>
    rw [hpending] at hq
    obtain ⟨negated', hmem⟩ := opening_mem_of_unclosed hq
    exact absurd (hvs _ hmem) (Nat.lt_irrefl q)

/-- What stands at the parenthesis at fault: after balanced text, a `)`, or a `(` that nothing
closes, and then no `)` is stray. -/
theorem exists_fault {k p : Nat} {cs : List Char} {ts : List Token} (hs : Token.Scanned k cs ts)
    (hf : (ofTokens ts).fault? = some p) :
    ∃ before after, Balanced before ∧ k + String.utf8Len before = p ∧
      (cs = before ++ ')' :: after ∨
        cs = before ++ '(' :: after ∧ ¬ HasClosing after ∧ openAfter? 0 cs ≠ none) := by
  have hd := describes_ofTokens ts
  generalize hn : ofTokens ts = n at hf hd
  cases hd with
  | matched hm => cases hf
  | @pending us vs l level outer unclosed q hm hr =>
    obtain rfl := Option.some.inj hf
    obtain ⟨as, bs, rfl, has, -, hp⟩ := hs.split_at
    refine ⟨as, bs, has.balanced hm, ?_, .inl rfl⟩
    rw [has.utf8Len_eq]
    simpa [Token.position, Token.chars] using hp.symm
  | @unclosed us vs l negated q hm =>
    obtain rfl := Option.some.inj hf
    obtain ⟨as, bs, rfl, has, hbs, hp⟩ := hs.split_at
    have hopening : (Token.opening negated q).chars ++ bs = negation negated ++ '(' :: bs := by
      simp [Token.chars]
    refine ⟨as ++ negation negated, bs, (has.balanced hm).append (.negation negated), ?_,
      .inr ⟨by simp [Token.chars], ?_, ?_⟩⟩
    · rw [String.utf8Len_append, has.utf8Len_eq, Token.utf8Len_negation]
      simp only [Token.position, Token.chars, List.length_append, List.length_singleton] at hp
      omega
    · have hunclosed := congrArg Nesting.unclosed hn
      exact hbs.not_hasClosing (pending_eq_nil_of_fault hm hunclosed hbs.le_position)
    · have hcount := (hs.isSome_openAfter? 0).2 (by rw [hn]; exact Nat.le_refl 0)
      exact Option.isSome_iff_ne_none.1 hcount

/-- In balanced text no parenthesis is at fault. -/
theorem fault?_of_balanced {k : Nat} {cs : List Char} {ts : List Token}
    (hs : Token.Scanned k cs ts) (hb : Balanced cs) : (ofTokens ts).fault? = none := by
  cases hf : (ofTokens ts).fault? with
  | none => rfl
  | some p =>
    obtain ⟨before, after, hbefore, -, rfl | ⟨rfl, hno, -⟩⟩ := exists_fault hs hf
    · have hcount := hb.openAfter? 0
      rw [openAfter?_append, hbefore.openAfter?] at hcount
      cases hcount
    · exact absurd (hb.hasClosing rfl) hno

end Nesting

namespace Level

/-- Every level is made of some tokens. -/
theorem exists_tokens (l : Level) : ∃ ts, Matched ts l := by
  induction l with
  | nil => exact ⟨[], .nil⟩
  | letter negated x p rest ih =>
    obtain ⟨ts, h⟩ := ih
    exact ⟨_, .letter negated x p h⟩
  | connective op p rest ih =>
    obtain ⟨ts, h⟩ := ih
    exact ⟨_, .connective op p h⟩
  | group negated p body rest ihb ih =>
    obtain ⟨us, hb⟩ := ihb
    obtain ⟨ts, h⟩ := ih
    exact ⟨_, .group negated p 0 hb h⟩

/-- Folding a level never finds fault with parentheses. -/
theorem result_ne_unbalanced (l : Level) (p : Nat) :
    l.result .empty ≠ .error (.unbalancedParentheses p) := by
  intro h
  obtain ⟨ts, hm⟩ := l.exists_tokens
  have hstart : Chain.Follows ([] ++ [.opening false 0]) ([] ++ [.opening false 0]) .empty := rfl
  have hfold := reads_fold hm isOpening_getLast? hstart [.closing 0]
  have hresult := reads_result hfold
  rw [h] at hresult
  exact hresult

end Level

namespace Expression

/-- Where a parenthesis is at fault, it is the first stray `)`, or the leftmost unclosed `(` of text
without a stray `)`. -/
theorem faults_of_scanned {text : List Char} {ts : List Token} {p : Nat}
    (hs : Token.Scanned 0 text ts) (hf : (Nesting.ofTokens ts).fault? = some p) :
    (StrayAt text p ∧ ∀ q < p, ¬ StrayAt text q) ∨
      ((∀ q, ¬ StrayAt text q) ∧ UnclosedAt text p ∧ ∀ q < p, ¬ UnclosedAt text q) := by
  obtain ⟨before, after, hb, hp, htext | ⟨htext, hno, hcount⟩⟩ := Nesting.exists_fault hs hf
  · have hplace : Text.Place text p before ')' after := ⟨htext, by omega⟩
    refine .inl ⟨⟨before, after, hplace, hb.not_hasOpening⟩, fun q hlt => ?_⟩
    rintro ⟨before', after', hplace', hno⟩
    obtain ⟨between, rfl, -⟩ := hplace'.of_lt hplace hlt
    have hcount : openAfter? 0 (before' ++ ')' :: between) ≠ none := by
      rw [hb.openAfter?]
      exact Option.some_ne_none 0
    exact hno (hasOpening_of_openAfter? hcount)
  · have hplace : Text.Place text p before '(' after := ⟨htext, by omega⟩
    refine .inr ⟨not_strayAt_of_openAfter? hcount, ⟨before, after, hplace, hno⟩, fun q hlt => ?_⟩
    rintro ⟨before', after', hplace', hno'⟩
    obtain ⟨between, rfl, rfl⟩ := hplace'.of_lt hplace hlt
    exact hno' ((hb.hasClosing rfl).append _)

/-- **Faults of parentheses are exact**: the error is given only where the parentheses do not match,
at the first stray `)` or, if there is none, at the leftmost unclosed `(`; text whose parentheses do
not match is never read. A group taken by itself, at its place in the text, never gives this error,
nor does the folding of a level. -/
theorem unbalanced_at_fault (s : String) :
    let text := canonicalChars s.toList
    (∀ p, parse s = .error (.unbalancedParentheses p) → ¬ ParenthesesMatch text ∧
      ((StrayAt text p ∧ ∀ q < p, ¬ StrayAt text q) ∨
        ((∀ q, ¬ StrayAt text q) ∧ UnclosedAt text p ∧ ∀ q < p, ¬ UnclosedAt text q))) ∧
    (ParenthesesMatch text → ∀ p, parse s ≠ .error (.unbalancedParentheses p)) ∧
    (¬ ParenthesesMatch text → ∃ e, parse s = .error e) ∧
    (∀ before body after us depth, text = before ++ '(' :: (body ++ ')' :: after) →
      Balanced body → Token.scan (String.utf8Len before + 1) depth false body = .ok us →
      ∀ p, (Nesting.ofTokens us).read ≠ .error (.unbalancedParentheses p)) ∧
    ∀ (l : Level) p, l.result .empty ≠ .error (.unbalancedParentheses p) := by
  intro text
  have hfault : ∀ p, parse s = .error (.unbalancedParentheses p) →
      (StrayAt text p ∧ ∀ q < p, ¬ StrayAt text q) ∨
        ((∀ q, ¬ StrayAt text q) ∧ UnclosedAt text p ∧ ∀ q < p, ¬ UnclosedAt text q) := by
    intro p h
    rcases ofCanonical_eq_error h with ⟨he, -⟩ | hlexical | ⟨ts, hs, hstructural | ⟨q, hq, he⟩⟩
    · cases he
    · exact hlexical.elim
    · exact hstructural.elim
    · cases he
      exact faults_of_scanned hs hq
  have hmatch : ∀ p, parse s = .error (.unbalancedParentheses p) → ¬ ParenthesesMatch text := by
    intro p h hm
    rcases hfault p h with ⟨hstray, -⟩ | ⟨-, hunclosed, -⟩
    · exact (hm p).1 hstray
    · exact (hm p).2 hunclosed
  refine ⟨fun p h => ⟨hmatch p h, hfault p h⟩, fun hm p h => hmatch p h hm, fun hm => ?_,
    fun before body after us depth _ hb hscan p => ?_, fun l => l.result_ne_unbalanced⟩
  · cases h : parse s with
    | error e => exact ⟨e, rfl⟩
    | ok e =>
      obtain ⟨ts, l, hs, hmatched, -⟩ := (isLevel_of_ofCanonical h).1.read 0
      exact absurd (hs.balanced hmatched).parenthesesMatch hm
  · have hs : Token.Scanned (String.utf8Len before + 1) body us :=
      Token.scanned_negation_of_scan hscan (fun h => by cases h) rfl
    have hmatched := Nesting.matched_of_fault? (Nesting.fault?_of_balanced hs hb)
    rw [Nesting.read_of_matched hmatched]
    exact Level.result_ne_unbalanced _ p

/-- In `(a) and ((b) or (c)` the third `(` is never closed, canonically at byte 6. -/
theorem unbalanced_unclosed :
    let text := canonicalChars "(a) and ((b) or (c)".toList
    parse "(a) and ((b) or (c)" = .error (.unbalancedParentheses 6) ∧
      ¬ ParenthesesMatch text ∧ (StrayAt text 6 ∨ UnclosedAt text 6) := by
  intro text
  have hparse : parse "(a) and ((b) or (c)" = .error (.unbalancedParentheses 6) := by rfl
  obtain ⟨hno, hfault⟩ := (unbalanced_at_fault "(a) and ((b) or (c)").1 6 hparse
  exact ⟨hparse, hno, hfault.imp (fun h => h.1) fun h => h.2.1⟩

end Expression

end TruthTables
