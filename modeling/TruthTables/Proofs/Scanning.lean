import Mathlib.Data.String.Basic
import TruthTables.Proofs.Grammar

/-!
# Tokens and their text

`Scanned p text tokens`: from byte `p` on, the text is the characters of the tokens
(`Token.chars`), each at its position, with white space between them. Two lemmas tie this relation
to `Token.scan`, where the bound on open parentheses is the only other thing that the scan looks at:

* `scan_of_scanned`: a text of tokens is scanned, or it nests too deep (`Grammar.deepest`);
* `scanned_of_scan`: what is scanned is a text of tokens that does not nest too deep.
-/

set_option autoImplicit false

namespace TruthTables

open Grammar

/-! ## Characters -/

theorem Variable.letter_ne (x : Variable) {c : Char} (h : isVariableLetter c = false) :
    x.letter ≠ c := by
  rintro rfl
  rw [x.isVariable] at h
  cases h

theorem Variable.ofSign?_letter (x : Variable) : Connective.ofSign? x.letter = none := by
  rw [Option.eq_none_iff_forall_ne_some]
  intro op h
  rw [Connective.ofSign?_eq_some_iff] at h
  exact x.letter_ne (by cases op <;> decide) h.symm

theorem Variable.letter_inj {x y : Variable} : x.letter = y.letter ↔ x = y := by
  constructor
  · intro h
    cases x; cases y; cases h; rfl
  · rintro rfl
    rfl

theorem Connective.sign_inj {op op' : Connective} : op.sign = op'.sign ↔ op = op' := by
  cases op <;> cases op' <;> decide

theorem Variable.utf8Size_letter (x : Variable) : x.letter.utf8Size = 1 := by
  have h := x.isVariable
  simp only [isVariableLetter, Bool.and_eq_true, decide_eq_true_eq] at h
  rw [Char.utf8Size_eq_one_iff, UInt32.le_iff_toNat_le]
  have : x.letter.val.toNat ≤ 122 := h.1.2
  exact Nat.le_trans this (by decide)

theorem Variable.isWhiteSpace_letter (x : Variable) : Text.isWhiteSpace x.letter = false := by
  have h := x.isVariable
  simp only [isVariableLetter, Bool.and_eq_true, decide_eq_true_eq] at h
  simp [Text.isWhiteSpace, Text.whiteSpaceRanges]
  omega

theorem Variable.isAsciiWhiteSpace_letter (x : Variable) :
    Text.isAsciiWhiteSpace x.letter = false := by
  refine Bool.eq_false_iff.2 fun h => ?_
  have hw := Text.isWhiteSpace_of_ascii h
  rw [x.isWhiteSpace_letter] at hw
  cases hw

theorem Text.eq_of_ascii {c : Char} (hc : isAsciiWhiteSpace c = true) :
    c = ' ' ∨ c = '\t' ∨ c = '\n' ∨ c = '\x0c' ∨ c = '\r' := by
  simpa [isAsciiWhiteSpace, or_assoc] using hc

theorem Text.utf8Size_of_ascii {c : Char} (hc : isAsciiWhiteSpace c = true) :
    c.utf8Size = 1 := by
  rcases eq_of_ascii hc with rfl | rfl | rfl | rfl | rfl <;> rfl

/-- Characters of one byte each. -/
theorem Text.utf8Len_eq_length {cs : List Char} (h : ∀ c ∈ cs, c.utf8Size = 1) :
    String.utf8Len cs = cs.length := by
  induction cs with
  | nil => rfl
  | cons c cs ih =>
    rw [String.utf8Len_cons, List.length_cons, h c List.mem_cons_self,
      ih fun d hd => h d (List.mem_cons_of_mem c hd)]

theorem Grammar.eq_of_mem_negation {negated : Bool} {c : Char} (h : c ∈ negation negated) :
    c = '~' := by
  cases negated with
  | false => cases h
  | true => exact List.mem_singleton.1 h

namespace Token

/-! ## Tokens as text -/

/-- The characters of a token, its negation included. -/
def chars : Token → List Char
  | opening negated _ => negation negated ++ ['(']
  | closing _ => [')']
  | letter negated x _ => negation negated ++ [x.letter]
  | connective op _ => [op.sign]

/-- How many parentheses are open after a token, where `depth` are before it. -/
def depthAfter (depth : Nat) : Token → Nat
  | opening _ _ => depth + 1
  | closing _ => depth - 1
  | _ => depth

/-- From byte `p` on, the text is these tokens with white space between them. -/
inductive Scanned : Nat → List Char → List Token → Prop
  | nil (p : Nat) : Scanned p [] []
  | blank {p : Nat} {c : Char} {cs : List Char} {ts : List Token}
    (hc : Text.isAsciiWhiteSpace c = true) (h : Scanned (p + 1) cs ts) : Scanned p (c :: cs) ts
  | token {p : Nat} {t : Token} {cs : List Char} {ts : List Token}
    (ht : t.position + 1 = p + t.chars.length) (h : Scanned (t.position + 1) cs ts) :
    Scanned p (t.chars ++ cs) (t :: ts)

/-! ## Single steps of a scan -/

theorem scan_blank {c : Char} (hc : Text.isAsciiWhiteSpace c = true) (p depth : Nat)
    (negated : Bool) (rest : List Char) :
    scan p depth negated (c :: rest) = scan (p + 1) depth false rest := by
  rcases Text.eq_of_ascii hc with rfl | rfl | rfl | rfl | rfl <;> rfl

/-- A negation or none, where an operand begins. -/
theorem scan_negation (negated : Bool) {c : Char} (hc : c = '(' ∨ isVariableLetter c = true)
    (p depth : Nat) (rest : List Char) :
    scan p depth false (negation negated ++ c :: rest) =
      scan (p + (negation negated).length) depth negated (c :: rest) := by
  cases negated
  · rfl
  · show scan p depth false ('~' :: c :: rest) = _
    rw [scan]
    simp [operandFollows, hc]
    rfl

theorem scan_opening (p : Nat) {depth : Nat} (hd : depth < maxNesting) (negated : Bool)
    (rest : List Char) :
    scan p depth negated ('(' :: rest) =
      (opening negated p :: ·) <$> scan (p + 1) (depth + 1) false rest := by
  rw [scan]
  simp [hd]
  rfl

theorem scan_opening_of_deep (p : Nat) {depth : Nat} (hd : maxNesting ≤ depth) (negated : Bool)
    (rest : List Char) : scan p depth negated ('(' :: rest) = .error (.nestingTooDeep p) := by
  have hnlt : ¬ depth < maxNesting := by omega
  rw [scan]
  simp [hnlt]

theorem scan_letter (x : Variable) (p depth : Nat) (negated : Bool) (rest : List Char) :
    scan p depth negated (x.letter :: rest) =
      (letter negated x p :: ·) <$> scan (p + 1) depth false rest := by
  have hn : x.letter ≠ '~' := x.letter_ne (by decide)
  have ho : x.letter ≠ '(' := x.letter_ne (by decide)
  have hc : x.letter ≠ ')' := x.letter_ne (by decide)
  rw [scan]
  simp only [hn, ho, hc, if_false, x.ofSign?_letter, x.ofChar?_letter, x.utf8Size_letter]

/-- A token that does not open too many parentheses is scanned. -/
theorem scan_chars {p depth : Nat} {t : Token} (ht : t.position + 1 = p + t.chars.length)
    (hd : t.depthAfter depth ≤ maxNesting) (rest : List Char) :
    scan p depth false (t.chars ++ rest) =
      (t :: ·) <$> scan (t.position + 1) (t.depthAfter depth) false rest := by
  cases t with
  | opening negated q =>
    obtain rfl : q = p + (negation negated).length := by
      simp [position, chars] at ht
      omega
    rw [chars, List.append_assoc, List.singleton_append, scan_negation negated (.inl rfl)]
    exact scan_opening _ hd negated rest
  | closing q =>
    obtain rfl : q = p := by simpa [position, chars] using ht
    simp [chars, scan, position, depthAfter]
    rfl
  | letter negated x q =>
    obtain rfl : q = p + (negation negated).length := by
      simp [position, chars] at ht
      omega
    rw [chars, List.append_assoc, List.singleton_append,
      scan_negation negated (.inr x.isVariable)]
    exact scan_letter x _ depth negated rest
  | connective op q =>
    obtain rfl : q = p := by simpa [position, chars] using ht
    cases op <;> rfl

/-- A parenthesis that opens too many is where the scan stops. -/
theorem scan_chars_of_deep {p depth : Nat} {t : Token} (ht : t.position + 1 = p + t.chars.length)
    (hp : depth ≤ maxNesting) (hd : maxNesting < t.depthAfter depth) (rest : List Char) :
    scan p depth false (t.chars ++ rest) = .error (.nestingTooDeep t.position) := by
  cases t with
  | opening negated q =>
    obtain rfl : q = p + (negation negated).length := by
      simp [position, chars] at ht
      omega
    rw [chars, List.append_assoc, List.singleton_append, scan_negation negated (.inl rfl)]
    exact scan_opening_of_deep _ (Nat.lt_succ_iff.1 hd) negated rest
  | closing q =>
    simp only [depthAfter] at hd
    omega
  | letter negated x q =>
    simp only [depthAfter] at hd
    omega
  | connective op q =>
    simp only [depthAfter] at hd
    omega

theorem deepest_blank {c : Char} (hc : Text.isAsciiWhiteSpace c = true) (depth : Nat)
    (rest : List Char) : deepest depth (c :: rest) = deepest depth rest := by
  rcases Text.eq_of_ascii hc with rfl | rfl | rfl | rfl | rfl <;> rfl

theorem deepest_chars (depth : Nat) (t : Token) (rest : List Char) :
    deepest depth (t.chars ++ rest) = max depth (deepest (t.depthAfter depth) rest) := by
  have hle := le_deepest (t.depthAfter depth) rest
  cases t with
  | opening b q =>
    have : depth + 1 ≤ deepest (depth + 1) rest := hle
    cases b <;> simp [chars, negation, deepest, depthAfter] <;> omega
  | closing q => simp [chars, deepest, depthAfter]
  | letter b x q =>
    have ho : x.letter ≠ '(' := x.letter_ne (by decide)
    have hc : x.letter ≠ ')' := x.letter_ne (by decide)
    have : depth ≤ deepest depth rest := hle
    cases b <;> simp [chars, negation, deepest, depthAfter, ho, hc] <;> omega
  | connective op q =>
    have : depth ≤ deepest depth rest := hle
    cases op <;> simp [chars, Connective.sign, deepest, depthAfter] <;> omega

/-! ## The scan of a text of tokens -/

/-- Where the parentheses are not nested too deep, the tokens are found. -/
theorem scan_of_scanned {p depth : Nat} {cs : List Char} {ts : List Token} (h : Scanned p cs ts)
    (hd : deepest depth cs ≤ maxNesting) : scan p depth false cs = .ok ts := by
  induction h generalizing depth with
  | nil p => rfl
  | blank hc h ih =>
    rw [scan_blank hc]
    exact ih (by rwa [deepest_blank hc] at hd)
  | @token p t cs ts ht h ih =>
    rw [deepest_chars] at hd
    have hle := le_deepest (t.depthAfter depth) cs
    rw [scan_chars ht (by omega), ih (by omega)]
    rfl

/-- Where they are, a parenthesis is refused. -/
theorem scan_of_scanned_of_deep {p depth : Nat} {cs : List Char} {ts : List Token}
    (h : Scanned p cs ts) (hp : depth ≤ maxNesting) (hd : maxNesting < deepest depth cs) :
    ∃ q, scan p depth false cs = .error (.nestingTooDeep q) := by
  induction h generalizing depth with
  | nil p =>
    rw [deepest] at hd
    omega
  | blank hc h ih =>
    rw [scan_blank hc]
    exact ih hp (by rwa [deepest_blank hc] at hd)
  | @token p t cs ts ht h ih =>
    by_cases hlt : maxNesting < t.depthAfter depth
    · exact ⟨_, scan_chars_of_deep ht hp hlt cs⟩
    · have hle : t.depthAfter depth ≤ maxNesting := by omega
      rw [deepest_chars] at hd
      obtain ⟨q, hq⟩ := ih hle (by omega)
      refine ⟨q, ?_⟩
      rw [scan_chars ht hle, hq]
      rfl

theorem eq_ok_of_map_eq_ok {ε α β : Type} {f : α → β} {x : Except ε α} {b : β}
    (h : f <$> x = .ok b) : ∃ a, x = .ok a ∧ f a = b := by
  cases x with
  | error e => cases h
  | ok a => exact ⟨a, rfl, Except.ok.inj h⟩

theorem operandFollows_cons_iff {c : Char} {rest : List Char} :
    operandFollows (c :: rest) = true ↔ c = '(' ∨ isVariableLetter c = true := by
  simp [operandFollows]

/-- What is scanned is a text of tokens, after a negation where the flag is set. -/
theorem scanned_negation_of_scan {position depth : Nat} {negated : Bool} {cs : List Char}
    {ts : List Token} (h : scan position depth negated cs = .ok ts)
    (hn : negated = true → operandFollows cs = true) {p : Nat}
    (hp : position = p + (negation negated).length) : Scanned p (negation negated ++ cs) ts := by
  fun_induction scan position depth negated cs generalizing p ts
  case case1 position depth negated =>
    obtain rfl : negated = false := by simpa [operandFollows] using hn
    cases h
    exact .nil p
  case case2 position depth negated rest hf next ih =>
    -- a negation is no operand, so the flag is clear here and wherever no operand begins
    obtain rfl : negated = false := by
      simpa [operandFollows_cons_iff, show isVariableLetter '~' = false by decide] using hn
    obtain rfl : position = p := hp
    exact ih h (fun _ => hf) rfl
  case case3 => cases h
  case case4 position depth negated rest hlt next hc ih =>
    obtain ⟨us, hus, rfl⟩ := eq_ok_of_map_eq_ok h
    have hrest : Scanned (position + 1) rest us := ih hus (by simp) rfl
    have ht : position + 1 = p + (opening negated position).chars.length := by
      simp [chars, hp, Nat.add_assoc]
    simpa [chars] using Scanned.token (t := opening negated position) ht hrest
  case case5 => cases h
  case case6 position depth negated rest next hc hc' ih =>
    obtain rfl : negated = false := by
      simpa [operandFollows_cons_iff, show isVariableLetter ')' = false by decide] using hn
    obtain rfl : position = p := hp
    obtain ⟨us, hus, rfl⟩ := eq_ok_of_map_eq_ok h
    have hrest : Scanned (position + 1) rest us := ih hus (by simp) rfl
    exact Scanned.token (t := closing position) rfl hrest
  case case7 position depth negated c rest next h1 h2 h3 op hop ih =>
    obtain rfl := Connective.ofSign?_eq_some_iff.1 hop
    obtain rfl : negated = false := by
      have hl : isVariableLetter op.sign = false := by cases op <;> decide
      simpa [operandFollows_cons_iff, h2, hl] using hn
    obtain rfl : position = p := hp
    obtain ⟨us, hus, rfl⟩ := eq_ok_of_map_eq_ok h
    have hrest : Scanned (position + 1) rest us :=
      ih hus (by simp) (by cases op <;> rfl)
    exact Scanned.token (t := connective op position) rfl hrest
  case case8 position depth negated c rest next h1 h2 h3 x hx hop ih =>
    obtain rfl := Variable.ofChar?_eq_some_iff.1 hx
    obtain ⟨us, hus, rfl⟩ := eq_ok_of_map_eq_ok h
    have hrest : Scanned (position + 1) rest us :=
      ih hus (by simp) (congrArg (position + ·) x.utf8Size_letter)
    have ht : position + 1 = p + (letter negated x position).chars.length := by
      simp [chars, hp, Nat.add_assoc]
    simpa [chars] using Scanned.token (t := letter negated x position) ht hrest
  case case9 position depth negated c rest next h1 h2 h3 hx hop hw ih =>
    obtain rfl : negated = false := by
      simpa [operandFollows_cons_iff, h2, Variable.ofChar?_eq_none_iff.1 hx] using hn
    obtain rfl : position = p := hp
    have hrest : Scanned (position + 1) rest ts :=
      ih h (by simp) (congrArg (position + ·) (Text.utf8Size_of_ascii hw))
    exact .blank hw hrest
  case case10 => cases h

/-- A scan finds the tokens of a text whose parentheses are not nested too deep. -/
theorem scanned_of_scan {p depth : Nat} {cs : List Char} {ts : List Token}
    (h : scan p depth false cs = .ok ts) (hp : depth ≤ maxNesting) :
    Scanned p cs ts ∧ deepest depth cs ≤ maxNesting := by
  have hs : Scanned p cs ts := scanned_negation_of_scan h (by simp) rfl
  refine ⟨hs, Nat.not_lt.1 fun hd => ?_⟩
  obtain ⟨q, hq⟩ := scan_of_scanned_of_deep hs hp hd
  rw [hq] at h
  cases h

/-! ## Taking texts of tokens apart and together -/

namespace Scanned

theorem append {p : Nat} {cs ds : List Char} {ts us : List Token} (h : Scanned p cs ts)
    (h' : Scanned (p + cs.length) ds us) : Scanned p (cs ++ ds) (ts ++ us) := by
  induction h with
  | nil p => exact h'
  | @blank p c cs ts hc h ih =>
    refine .blank hc (ih ?_)
    rwa [List.length_cons, Nat.add_comm cs.length, ← Nat.add_assoc] at h'
  | @token p t cs ts ht h ih =>
    rw [List.append_assoc]
    refine .token ht (ih ?_)
    rwa [ht, Nat.add_assoc, ← List.length_append]

theorem of_blank {cs : List Char} (h : Blank cs) (p : Nat) : Scanned p cs [] := by
  induction cs generalizing p with
  | nil => exact .nil p
  | cons c cs ih =>
    exact .blank (h c List.mem_cons_self) (ih (fun d hd => h d (List.mem_cons_of_mem c hd)) _)

/-- A text without tokens is blank. -/
theorem blank_of_nil {p : Nat} {cs : List Char} (h : Scanned p cs []) : Blank cs := by
  generalize hts : ([] : List Token) = ts at h
  induction h with
  | nil p => exact .nil
  | blank hc h ih =>
    intro d hd
    rcases List.mem_cons.1 hd with rfl | hd
    · exact hc
    · exact ih hts d hd
  | token ht h ih => cases hts

/-- The text of several tokens is parted by any one of them; the white space before it goes to the
left part. -/
theorem split_at {p : Nat} {cs : List Char} {ts us : List Token} {t : Token}
    (h : Scanned p cs (ts ++ t :: us)) :
    ∃ as bs, cs = as ++ (t.chars ++ bs) ∧ Scanned p as ts ∧ Scanned (t.position + 1) bs us ∧
      t.position + 1 = p + as.length + t.chars.length := by
  generalize hvs : ts ++ t :: us = vs at h
  induction h generalizing ts with
  | nil p => simp at hvs
  | @blank p c cs vs hc h ih =>
    obtain ⟨as, bs, rfl, ha, hb, hp⟩ := ih hvs
    refine ⟨c :: as, bs, rfl, .blank hc ha, hb, ?_⟩
    rw [hp, List.length_cons]
    omega
  | @token p v cs vs hv h ih =>
    cases ts with
    | nil =>
      obtain ⟨rfl, rfl⟩ := List.cons.inj hvs
      exact ⟨[], cs, rfl, .nil p, h, hv⟩
    | cons t' ts =>
      obtain ⟨rfl, hvs'⟩ := List.cons.inj hvs
      obtain ⟨as, bs, rfl, ha, hb, hp⟩ := ih hvs'
      refine ⟨t'.chars ++ as, bs, by rw [List.append_assoc], .token hv ha, hb, ?_⟩
      rw [hp, hv, List.length_append]
      omega

theorem split {p : Nat} {cs : List Char} {ts us : List Token} {t : Token}
    (h : Scanned p cs (ts ++ t :: us)) :
    ∃ as bs, cs = as ++ (t.chars ++ bs) ∧ Scanned p as ts ∧ Scanned (t.position + 1) bs us := by
  obtain ⟨as, bs, hcs, ha, hb, -⟩ := h.split_at
  exact ⟨as, bs, hcs, ha, hb⟩

/-- White space comes first, then the first token. -/
theorem uncons_at {p : Nat} {cs : List Char} {us : List Token} {t : Token}
    (h : Scanned p cs (t :: us)) :
    ∃ as bs, Blank as ∧ cs = as ++ (t.chars ++ bs) ∧ Scanned (t.position + 1) bs us ∧
      t.position + 1 = p + as.length + t.chars.length := by
  obtain ⟨as, bs, rfl, ha, hb, hp⟩ : ∃ as bs, cs = as ++ (t.chars ++ bs) ∧ Scanned p as [] ∧
    Scanned (t.position + 1) bs us ∧ t.position + 1 = p + as.length + t.chars.length := split_at h
  exact ⟨as, bs, ha.blank_of_nil, rfl, hb, hp⟩

theorem uncons {p : Nat} {cs : List Char} {us : List Token} {t : Token}
    (h : Scanned p cs (t :: us)) :
    ∃ as bs, Blank as ∧ cs = as ++ (t.chars ++ bs) ∧ Scanned (t.position + 1) bs us := by
  obtain ⟨as, bs, ha, hcs, hb, -⟩ := h.uncons_at
  exact ⟨as, bs, ha, hcs, hb⟩

end Scanned

/-! ## A text has one row of tokens -/

/-- A token begins with no white space. -/
theorem isAsciiWhiteSpace_of_chars {t : Token} {c : Char} {cs ds : List Char}
    (h : t.chars ++ cs = c :: ds) : Text.isAsciiWhiteSpace c = false := by
  rcases t with ⟨_ | _, q⟩ | q | ⟨_ | _, x, q⟩ | ⟨op, q⟩ <;>
    obtain ⟨rfl, -⟩ := List.cons.inj h
  · rfl
  · rfl
  · rfl
  · exact x.isAsciiWhiteSpace_letter
  · rfl
  · cases op <;> rfl

/-- Two tokens with the same text are equal: their characters tell the kinds apart. -/
theorem chars_append_inj {p : Nat} {t t' : Token} {cs cs' : List Char}
    (ht : t.position + 1 = p + t.chars.length) (ht' : t'.position + 1 = p + t'.chars.length)
    (h : t.chars ++ cs = t'.chars ++ cs') : t = t' ∧ cs = cs' := by
  have hx : ∀ x : Variable, x.letter ≠ '~' ∧ x.letter ≠ '(' ∧ x.letter ≠ ')' := fun x =>
    ⟨x.letter_ne (by decide), x.letter_ne (by decide), x.letter_ne (by decide)⟩
  have hop : ∀ op : Connective, op.sign ≠ '~' ∧ op.sign ≠ '(' ∧ op.sign ≠ ')' := fun op => by
    cases op <;> decide
  have hxop : ∀ (x : Variable) (op : Connective), x.letter ≠ op.sign := fun x op =>
    x.letter_ne (by cases op <;> decide)
  rcases t with ⟨_ | _, q⟩ | q | ⟨_ | _, x, q⟩ | ⟨op, q⟩ <;>
    rcases t' with ⟨_ | _, q'⟩ | q' | ⟨_ | _, x', q'⟩ | ⟨op', q'⟩ <;>
    simp [chars, negation, position, Variable.letter_inj, Connective.sign_inj] at h ht ht' <;>
    grind

theorem Scanned.unique {p : Nat} {cs : List Char} {ts us : List Token} (h : Scanned p cs ts)
    (h' : Scanned p cs us) : ts = us := by
  induction h generalizing us with
  | nil p =>
    generalize hcs : ([] : List Char) = cs at h'
    cases h' with
    | nil => rfl
    | blank => cases hcs
    | @token _ t _ _ => rcases t with ⟨_ | _, _⟩ | _ | ⟨_ | _, _, _⟩ | _ <;> cases hcs
  | @blank p c cs ts hc h ih =>
    generalize hds : c :: cs = ds at h'
    cases h' with
    | nil => cases hds
    | blank hc' h' =>
      obtain ⟨rfl, rfl⟩ := List.cons.inj hds
      exact ih h'
    | token ht' h' =>
      rw [isAsciiWhiteSpace_of_chars hds.symm] at hc
      cases hc
  | @token p t cs ts ht h ih =>
    generalize hds : t.chars ++ cs = ds at h'
    cases h' with
    | nil => rcases t with ⟨_ | _, _⟩ | _ | ⟨_ | _, _, _⟩ | _ <;> cases hds
    | blank hc' h' =>
      rw [isAsciiWhiteSpace_of_chars hds] at hc'
      cases hc'
    | token ht' h' =>
      obtain ⟨rfl, rfl⟩ := chars_append_inj ht ht' hds
      rw [ih h']

end Token

end TruthTables
