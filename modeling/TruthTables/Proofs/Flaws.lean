import Mathlib.Data.String.Basic
import TruthTables.Proofs.Respelling

/-!
# Flaws

A flaw is a character that no text after it can mend: it stands outside the alphabet, or it is a
negation attached to nothing, or the `(` that opens one parenthesis too many (`Text.FlawAt`). A scan
fails exactly for text with a flaw, and for the first one: `Token.verdict_scan`.

The invariant of a scan is that no flaw lies in the text it has passed: `Token.verdict_of_pass` is
the step over a sound character, `Token.verdict_of_scan` the run.
-/

set_option autoImplicit false

namespace TruthTables

open Grammar

/-! ## Places in a text -/

/-- The character `c` stands at byte `p` of the text, after `before` and before `after`. -/
structure Text.Place (text : List Char) (p : Nat) (before : List Char) (c : Char)
    (after : List Char) : Prop where
  text_eq : text = before ++ c :: after
  offset_eq : String.utf8Len before = p

theorem Text.Place.lt {text before after : List Char} {p : Nat} {c : Char}
    (h : Place text p before c after) : p < String.utf8Len text := by
  have hpos := c.utf8Size_pos
  rw [h.text_eq, ← h.offset_eq, String.utf8Len_append, String.utf8Len_cons]
  omega

section

variable {text before after before' after' : List Char} {p q : Nat} {c d : Char}

theorem Text.Place.exists_between (h : Place text p before c after)
    (h' : Place text q before' d after') (hle : p ≤ q) :
    ∃ between, before' = before ++ between ∧ c :: after = between ++ d :: after' := by
  have heq := h.text_eq.symm.trans h'.text_eq
  rcases List.append_eq_append_iff.1 heq with ⟨x, hx⟩ | ⟨x, rfl, hx⟩
  · exact ⟨x, hx⟩
  · have hp := h.offset_eq
    have hq := h'.offset_eq
    rw [String.utf8Len_append] at hp
    obtain rfl := String.utf8Len_eq_zero.1 (show String.utf8Len x = 0 by omega)
    exact ⟨[], by simp, hx.symm⟩

/-- One character stands at a byte. -/
theorem Text.Place.unique (h : Place text p before c after) (h' : Place text p before' d after') :
    before = before' ∧ c = d ∧ after = after' := by
  obtain ⟨x, rfl, hx⟩ := h.exists_between h' (Nat.le_refl p)
  have hp := h.offset_eq
  have hp' := h'.offset_eq
  rw [String.utf8Len_append] at hp'
  obtain rfl := String.utf8Len_eq_zero.1 (show String.utf8Len x = 0 by omega)
  exact ⟨(List.append_nil _).symm, List.cons.inj hx⟩

/-- Of two places in a text, the first one lies in what comes before the second one. -/
theorem Text.Place.of_lt (h : Place text p before c after) (h' : Place text q before' d after')
    (hlt : p < q) : ∃ between, before' = before ++ c :: between ∧ after = between ++ d :: after' := by
  obtain ⟨x, rfl, hx⟩ := h.exists_between h' (Nat.le_of_lt hlt)
  cases x with
  | nil =>
    have hp := h.offset_eq
    have hq := h'.offset_eq
    rw [List.append_nil] at hq
    omega
  | cons e x =>
    obtain ⟨rfl, hafter⟩ := List.cons.inj hx
    exact ⟨x, rfl, hafter⟩

end

/-! ## Characters -/

theorem Grammar.of_mem_alphabet {c : Char} (h : c ∈ alphabet) :
    c = '~' ∨ c = '(' ∨ c = ')' ∨ (∃ op, Connective.ofSign? c = some op) ∨
      (∃ x, Variable.ofChar? c = some x) ∨ Text.isAsciiWhiteSpace c = true := by
  rcases List.mem_append.1 h with h | h
  · have table : ([' ', '\t', '\n', '\x0c', '\r', '(', ')', '~', '^', 'v', '>', '-'].all fun c =>
        c == '~' || c == '(' || c == ')' || (Connective.ofSign? c).isSome ||
          Text.isAsciiWhiteSpace c) = true := rfl
    have hc := List.all_eq_true.1 table c h
    simp only [Bool.or_eq_true, beq_iff_eq, Option.isSome_iff_exists] at hc
    rcases hc with (((h | h) | h) | h) | h
    · exact .inl h
    · exact .inr (.inl h)
    · exact .inr (.inr (.inl h))
    · exact .inr (.inr (.inr (.inl h)))
    · exact .inr (.inr (.inr (.inr (.inr h))))
  · obtain ⟨x, -, rfl⟩ := List.mem_map.1 h
    exact .inr (.inr (.inr (.inr (.inl ⟨x, x.ofChar?_letter⟩))))

/-- A character of no kind is foreign. -/
theorem Grammar.not_mem_alphabet {c : Char} (hn : c ≠ '~') (ho : c ≠ '(') (hc : c ≠ ')')
    (hx : Variable.ofChar? c = none) (hop : Connective.ofSign? c = none)
    (hw : ¬ Text.isAsciiWhiteSpace c = true) : c ∉ alphabet := by
  intro hmem
  rcases of_mem_alphabet hmem with h | h | h | ⟨op, h⟩ | ⟨x, h⟩ | h
  · exact hn h
  · exact ho h
  · exact hc h
  · rw [hop] at h; cases h
  · rw [hx] at h; cases h
  · exact hw h

theorem Token.operandFollows_eq_false_iff {after : List Char} : operandFollows after = false ↔
    ∀ d ∈ after.head?, d ≠ '(' ∧ isVariableLetter d = false := by
  cases after <;> simp [operandFollows]

/-! ## Flaws -/

namespace Grammar

/-- How many parentheses are open after a character, where `depth` are before it. A `)` too many
leaves none open. -/
def depthStep (depth : Nat) (c : Char) : Nat :=
  if c = '(' then depth + 1 else if c = ')' then depth - 1 else depth

/-- How many parentheses are open after the text. -/
def depthOf (text : List Char) : Nat := text.foldl depthStep 0

theorem depthOf_concat (text : List Char) (c : Char) :
    depthOf (text ++ [c]) = depthStep (depthOf text) c := by
  rw [depthOf, List.foldl_append]
  rfl

theorem depthStep_other {c : Char} (ho : c ≠ '(') (hc : c ≠ ')') (depth : Nat) :
    depthStep depth c = depth := by
  rw [depthStep, if_neg ho, if_neg hc]

end Grammar

namespace Text

/-- The character at byte `p` is at fault, and this is the error for it. -/
inductive FlawAt (text : List Char) (p : Nat) : ParseError → Prop
  | foreign {before after : List Char} {c : Char} (h : Place text p before c after)
    (hc : c ∉ alphabet) : FlawAt text p (.unsupportedCharacter c p)
  | dangling {before after : List Char} (h : Place text p before '~' after)
    (hd : ∀ d ∈ after.head?, d ≠ '(' ∧ isVariableLetter d = false) :
    FlawAt text p (.danglingNegation p)
  | deep {before after : List Char} (h : Place text p before '(' after)
    (hd : depthOf (before ++ ['(']) = maxNesting + 1) : FlawAt text p (.nestingTooDeep p)

/-- No flaw stands before this one. -/
structure FirstFlawAt (text : List Char) (p : Nat) (e : ParseError) : Prop where
  flaw : FlawAt text p e
  le : ∀ q e', FlawAt text q e' → p ≤ q

/-! ## Sound characters -/

/-- The character is no flaw where `depth` parentheses are open and `after` follows. -/
structure Sound (depth : Nat) (c : Char) (after : List Char) : Prop where
  mem : c ∈ alphabet
  attached : c = '~' → Token.operandFollows after = true
  within : c = '(' → depth < maxNesting

theorem Sound.of_mem {c : Char} (hmem : c ∈ alphabet) (hn : c ≠ '~') (ho : c ≠ '(') (depth : Nat)
    (after : List Char) : Sound depth c after :=
  ⟨hmem, fun h => absurd h hn, fun h => absurd h ho⟩

variable {text before after before' after' : List Char} {p q : Nat} {c c' : Char}

theorem FlawAt.not_sound {e : ParseError} (hf : FlawAt text p e)
    (h : Place text p before c after) : ¬ Sound (depthOf before) c after := by
  intro hs
  cases hf with
  | foreign h' hc =>
    obtain ⟨-, rfl, -⟩ := h.unique h'
    exact hc hs.mem
  | dangling h' hd =>
    obtain ⟨-, rfl, rfl⟩ := h.unique h'
    have hattached := hs.attached rfl
    rw [Token.operandFollows_eq_false_iff.2 hd] at hattached
    cases hattached
  | deep h' hd =>
    obtain ⟨rfl, rfl, -⟩ := h.unique h'
    have hwithin := hs.within rfl
    rw [depthOf_concat] at hd
    have hstep : depthStep (depthOf before) '(' = depthOf before + 1 := rfl
    omega

theorem FlawAt.exists_place {e : ParseError} (hf : FlawAt text p e) :
    ∃ before c after, Place text p before c after := by
  cases hf with
  | foreign h hc => exact ⟨_, _, _, h⟩
  | dangling h hd => exact ⟨_, _, _, h⟩
  | deep h hd => exact ⟨_, _, _, h⟩

/-- Past a sound character, no flaw is left behind. -/
theorem FlawAt.le_of_pass {e : ParseError} (hf : FlawAt text q e) (h : Place text p before c after)
    (hs : Sound (depthOf before) c after) (hle : p ≤ q) : p + c.utf8Size ≤ q := by
  obtain ⟨before', c', after', h'⟩ := hf.exists_place
  rcases Nat.eq_or_lt_of_le hle with rfl | hlt
  · exact absurd hs (hf.not_sound h)
  · obtain ⟨between, rfl, -⟩ := h.of_lt h' hlt
    have hp := h.offset_eq
    have hq := h'.offset_eq
    rw [String.utf8Len_append, String.utf8Len_cons] at hq
    omega

/-- What the outcome of a scan says about the flaws of the text. -/
inductive Verdict {α : Type} (text : List Char) : Except ParseError α → Prop
  | clean {a : α} (h : ∀ p e, ¬ FlawAt text p e) : Verdict text (.ok a)
  | refused {p : Nat} {e : ParseError} (h : FirstFlawAt text p e) : Verdict text (.error e)

theorem Verdict.map {α β : Type} {x : Except ParseError α} (h : Verdict text x) (f : α → β) :
    Verdict text (f <$> x) := by
  cases h with
  | clean h => exact .clean h
  | refused h => exact .refused h

end Text

open Text

/-! ## Scans -/

namespace Token

variable {before rest : List Char} {position depth next : Nat} {c : Char}

/-- A sound character goes over to the text that has been passed. -/
theorem verdict_of_pass {x : Except ParseError (List Token)}
    (hp : String.utf8Len before = position) (hd : depthOf before = depth)
    (hclean : ∀ q e, FlawAt (before ++ c :: rest) q e → position ≤ q) (hs : Sound depth c rest)
    (hstep : depthStep depth c = next)
    (ih : ∀ {before' : List Char}, String.utf8Len before' = position + c.utf8Size →
      depthOf before' = next →
      (∀ q e, FlawAt (before' ++ rest) q e → position + c.utf8Size ≤ q) →
      Verdict (before' ++ rest) x) :
    Verdict (before ++ c :: rest) x := by
  have htext : before ++ c :: rest = (before ++ [c]) ++ rest := by simp
  have hplace : Place (before ++ c :: rest) position before c rest := ⟨rfl, hp⟩
  have hclean' : ∀ q e, FlawAt (before ++ c :: rest) q e → position + c.utf8Size ≤ q := by
    intro q e hf
    rw [← hd] at hs
    exact hf.le_of_pass hplace hs (hclean q e hf)
  rw [htext] at hclean' ⊢
  exact ih (by simp [hp]) (by rw [depthOf_concat, hd, hstep]) hclean'

/-- A scan stops at the first flaw of the text and nowhere else, if none lies behind it. -/
theorem verdict_of_scan (negated : Bool) (cs : List Char) (hmax : depth ≤ maxNesting)
    (hp : String.utf8Len before = position) (hd : depthOf before = depth)
    (hclean : ∀ q e, FlawAt (before ++ cs) q e → position ≤ q) :
    Verdict (before ++ cs) (scan position depth negated cs) := by
  fun_induction scan position depth negated cs generalizing before
  case case1 =>
    refine .clean fun q e hf => ?_
    obtain ⟨_, _, _, h⟩ := hf.exists_place
    have hlt := h.lt
    have hle := hclean q e hf
    rw [List.append_nil] at hlt
    omega
  case case2 position depth negated rest hf next ih =>
    have hs : Sound depth '~' rest := ⟨by decide, fun _ => hf, fun h => absurd h (by decide)⟩
    exact verdict_of_pass hp hd hclean hs rfl (ih hmax)
  case case3 position depth negated rest hf =>
    have hd' := operandFollows_eq_false_iff.1 (Bool.eq_false_iff.2 hf)
    exact .refused ⟨.dangling ⟨rfl, hp⟩ hd', hclean⟩
  case case4 position depth negated rest hlt next hne ih =>
    have hs : Sound depth '(' rest := ⟨by decide, fun h => absurd h hne, fun _ => hlt⟩
    exact verdict_of_pass hp hd hclean hs rfl fun hp hd hclean => (ih hlt hp hd hclean).map _
  case case5 position depth negated rest hdeep hne =>
    have hfull : depthOf (before ++ ['(']) = maxNesting + 1 := by
      rw [depthOf_concat, hd, depthStep, if_pos rfl]
      omega
    exact .refused ⟨.deep ⟨rfl, hp⟩ hfull, hclean⟩
  case case6 position depth negated rest next hn ho ih =>
    have hs : Sound depth ')' rest := .of_mem (by decide) hn ho depth rest
    have hmax' : depth - 1 ≤ maxNesting := by omega
    exact verdict_of_pass hp hd hclean hs rfl fun hp hd hclean => (ih hmax' hp hd hclean).map _
  case case7 position depth negated c rest next hn ho hc op hop ih =>
    obtain rfl := Connective.ofSign?_eq_some_iff.1 hop
    have hs := Sound.of_mem (sign_mem_alphabet op) hn ho depth rest
    exact verdict_of_pass hp hd hclean hs (depthStep_other ho hc depth) fun hp hd hclean =>
      (ih hmax hp hd hclean).map _
  case case8 position depth negated c rest next hn ho hc x hx hop ih =>
    obtain rfl := Variable.ofChar?_eq_some_iff.1 hx
    have hs := Sound.of_mem (letter_mem_alphabet x) hn ho depth rest
    exact verdict_of_pass hp hd hclean hs (depthStep_other ho hc depth) fun hp hd hclean =>
      (ih hmax hp hd hclean).map _
  case case9 position depth negated c rest next hn ho hc hx hop hw ih =>
    have hs := Sound.of_mem (mem_alphabet_of_ascii hw) hn ho depth rest
    exact verdict_of_pass hp hd hclean hs (depthStep_other ho hc depth) (ih hmax)
  case case10 position depth negated c rest hn ho hc hx hop hw =>
    exact .refused ⟨.foreign ⟨rfl, hp⟩ (not_mem_alphabet hn ho hc hx hop hw), hclean⟩

theorem verdict_scan (text : List Char) : Verdict text (scan 0 0 false text) := by
  have h : Verdict ([] ++ text) (scan 0 0 false text) :=
    verdict_of_scan false text (Nat.zero_le _) rfl rfl fun q _ _ => Nat.zero_le q
  exact h

/-- A scan fails for the first flaw of the text. -/
theorem firstFlawAt_of_scan {text : List Char} {e : ParseError}
    (h : scan 0 0 false text = .error e) : ∃ p, FirstFlawAt text p e := by
  have hverdict := verdict_scan text
  rw [h] at hverdict
  cases hverdict with
  | refused hfirst => exact ⟨_, hfirst⟩

theorem not_flawAt_of_scan {text : List Char} {ts : List Token}
    (h : scan 0 0 false text = .ok ts) (p : Nat) (e : ParseError) : ¬ FlawAt text p e := by
  have hverdict := verdict_scan text
  rw [h] at hverdict
  cases hverdict with
  | clean hclean => exact hclean p e

end Token

end TruthTables
