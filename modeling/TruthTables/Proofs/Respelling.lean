import TruthTables.Expression
import TruthTables.Proofs.Scanning

/-!
# Spelled text and its canonical form

`Spells words canon raw`: `raw` is the canonical text with some signs spelled by `words`. The
replacements know nothing of tokens, so they give back the canonical text only where no word is
found at a wrong place, and that hangs on which characters of canonical text may stand side by side,
`Adjoined`: `Spells.foldl_replace`.

Each replacement takes one word out of those that are left (`Spells.replace`). That it finds no
other match is a finite check on the table of spellings, `Spelling.separate`: a match would begin in
a piece of the text that is not the word itself, and it would have to end there or go on with the
first character of what may follow.
-/

set_option autoImplicit false

namespace TruthTables

/-! ## Replacing nothing -/

namespace Spelling

/-- No match of the word begins in a piece of text, where `next` is the character after it. -/
def clear (s : Spelling) (next : Option Char) : List Char → Bool
  | [] => true
  | c :: piece =>
    !s.word.isPrefixOf (c :: piece) && !(next.any fun d => (c :: piece ++ [d]).isPrefixOf s.word)
      && s.clear next piece

/-- A match that begins in `v` ends there, or takes in the character after it. -/
theorem not_word_prefix_append {s : Spelling} {v rest : List Char} (h : ¬ s.word <+: v)
    (h' : ∀ c ∈ rest.head?, ¬ v ++ [c] <+: s.word) : ¬ s.word <+: v ++ rest := by
  intro hp
  rcases List.prefix_or_prefix_of_prefix hp (List.prefix_append v rest) with hv | ⟨w, hw⟩
  · exact h hv
  · rw [← hw, List.prefix_append_right_inj] at hp
    cases w with
    | nil => exact h ⟨[], by rw [← hw]; simp⟩
    | cons c w =>
      obtain ⟨t, rfl⟩ := hp
      exact h' c rfl ⟨w, by rw [← hw]; simp⟩

theorem replace_append_of_clear {s : Spelling} {piece rest : List Char}
    (h : s.clear rest.head? piece = true) :
    s.replace (piece ++ rest) = piece ++ s.replace rest := by
  induction piece with
  | nil => rfl
  | cons c piece ih =>
    simp only [clear, Bool.and_eq_true, Bool.not_eq_true'] at h
    obtain ⟨⟨hin, hout⟩, hpiece⟩ := h
    have hp : ¬ s.word <+: c :: piece ++ rest := by
      refine not_word_prefix_append (fun hw => ?_) fun d hd hw => ?_
      · rw [List.isPrefixOf_iff_prefix.2 hw] at hin
        cases hin
      · rw [Option.mem_def.1 hd, Option.any_some, List.isPrefixOf_iff_prefix.2 hw] at hout
        cases hout
    rw [List.cons_append] at hp ⊢
    rw [replace_cons s hp, ih hpiece, List.cons_append]

theorem clear_of_ne_head {s : Spelling} {c : Char} (h : c ≠ s.head) (next : Option Char) :
    s.clear next [c] = true := by
  have h' : s.head ≠ c := h.symm
  cases next <;> simp [clear, word, h, h', List.isPrefixOf]

end Spelling

/-! ## Canonical text -/

namespace Grammar

/-- The characters of canonical text. -/
def alphabet : List Char :=
  [' ', '\t', '\n', '\x0c', '\r', '(', ')', '~', '^', 'v', '>', '-'] ++
    Variable.all.map fun x => x.letter

/-- Whether an operand may begin with the character. -/
def beginsOperand (c : Char) : Bool := c == '~' || c == '(' || isVariableLetter c

/-- Whether the character may stand directly after an operand. -/
def followsOperand (c : Char) : Bool :=
  c == ')' || (Connective.ofSign? c).isSome || Text.isAsciiWhiteSpace c

/-- Whether `d` may stand directly after `c` in canonical text. -/
def mayPrecede (c d : Char) : Bool :=
  if isVariableLetter c then followsOperand d
  else if c = '~' then d == '(' || isVariableLetter d
  else if (Connective.ofSign? c).isSome then beginsOperand d || Text.isAsciiWhiteSpace d
  else true

/-- All characters are those of canonical text, and each may stand before the next. -/
def Adjoined : List Char → Prop
  | [] => True
  | c :: rest => c ∈ alphabet ∧ (∀ d ∈ rest.head?, mayPrecede c d = true) ∧ Adjoined rest

theorem letter_mem_alphabet (x : Variable) : x.letter ∈ alphabet :=
  List.mem_append_right _ (List.mem_map_of_mem x.mem_all)

theorem sign_mem_alphabet (op : Connective) : op.sign ∈ alphabet := by
  cases op <;> decide

theorem mem_alphabet_of_ascii {c : Char} (hc : Text.isAsciiWhiteSpace c = true) :
    c ∈ alphabet := by
  rcases Text.eq_of_ascii hc with rfl | rfl | rfl | rfl | rfl <;> decide

end Grammar

/-! ## Spelled text -/

/-- `raw` is the canonical text with some of its signs spelled by the words. -/
inductive Spells (words : List Spelling) : List Char → List Char → Prop
  | nil : Spells words [] []
  | char {canon raw : List Char} (c : Char) (h : Spells words canon raw) :
    Spells words (c :: canon) (c :: raw)
  | word {canon raw : List Char} {s : Spelling} (hs : s ∈ words) (h : Spells words canon raw) :
    Spells words (s.sign :: canon) (s.word ++ raw)

namespace Spelling

/-- The characters with which the text of a canonical character may begin. -/
def firsts (words : List Spelling) (c : Char) : List Char :=
  c :: (words.filter fun s => s.sign == c).map fun s => s.head

/-- The pieces of a text in which a match of `s` might begin at a wrong place, each with its
canonical character: the first character of `s` and the words that are left. -/
def suspects (s : Spelling) (later : List Spelling) : List (List Char × Char) :=
  ([s.head], s.head) :: later.map fun t => (t.word, t.sign)

/-- No match of `s` begins at a wrong place where the words of `s` and those `later` are used. -/
def separate (s : Spelling) (later : List Spelling) : Bool :=
  (s.suspects later).all fun piece =>
    !Grammar.alphabet.contains piece.2 ||
      (s.clear none piece.1 &&
        (Grammar.alphabet.filter (Grammar.mayPrecede piece.2)).all fun d =>
          (firsts (s :: later) d).all fun c => s.clear (some c) piece.1)

/-- Each word is separate from those that are replaced after it. -/
def separateAll : List Spelling → Bool
  | [] => true
  | s :: later => s.separate later && separateAll later

theorem separateAll_all : separateAll all = true := by decide +kernel

end Spelling

namespace Spells

open Spelling Grammar

variable {words later : List Spelling} {s : Spelling} {canon raw : List Char}

theorem eq_of_nil (h : Spells [] canon raw) : raw = canon := by
  induction h with
  | nil => rfl
  | char c h ih => rw [ih]
  | word hs => cases hs

/-- Canonical text spells itself. -/
theorem refl (words : List Spelling) (canon : List Char) : Spells words canon canon := by
  induction canon with
  | nil => exact .nil
  | cons c canon ih => exact .char c ih

theorem append {canon' raw' : List Char} (h : Spells words canon raw)
    (h' : Spells words canon' raw') : Spells words (canon ++ canon') (raw ++ raw') := by
  induction h with
  | nil => exact h'
  | char c h ih => exact .char c ih
  | word hs h ih =>
    rw [List.append_assoc]
    exact .word hs ih

theorem single {s : Spelling} (hs : s ∈ words) : Spells words [s.sign] s.word := by
  have : Spells words [s.sign] (s.word ++ []) := .word hs .nil
  simpa using this

/-- White space and parentheses are put around both texts. -/
theorem enclose (h : Spells words canon raw) (before after : List Char) :
    Spells words ('(' :: (before ++ (canon ++ after) ++ [')']))
      ('(' :: (before ++ (raw ++ after) ++ [')'])) :=
  .char '(' (((refl words before).append (h.append (refl words after))).append (refl words [')']))

/-- The text begins as the canonical text does, or with the word for its first sign. -/
theorem head?_mem_firsts (h : Spells words canon raw) :
    ∀ c ∈ raw.head?, ∃ d ∈ canon.head?, c ∈ firsts words d := by
  intro c hc
  cases h with
  | nil => cases hc
  | char d h =>
    cases hc
    exact ⟨c, rfl, List.mem_cons_self⟩
  | @word _ _ s hs h =>
    cases hc
    refine ⟨s.sign, rfl, List.mem_cons_of_mem _ (List.mem_map.2 ⟨s, ?_, rfl⟩)⟩
    exact List.mem_filter.2 ⟨hs, beq_self_eq_true _⟩

/-- What follows a suspect in spelled text begins no match with it. -/
theorem clear_of_separate (hsep : s.separate later = true) (h : Spells (s :: later) canon raw)
    (ha : Adjoined canon) {piece : List Char × Char} (hp : piece ∈ s.suspects later)
    (hc : piece.2 ∈ alphabet) (hn : ∀ d ∈ canon.head?, mayPrecede piece.2 d = true) :
    s.clear raw.head? piece.1 = true := by
  have hpiece := List.all_eq_true.1 hsep piece hp
  simp only [Bool.or_eq_true, Bool.not_eq_true', List.contains_eq_mem, decide_eq_false_iff_not,
    Bool.and_eq_true, List.all_eq_true, List.mem_filter] at hpiece
  obtain ⟨hnone, hsome⟩ := hpiece.resolve_left (not_not_intro hc)
  cases hr : raw.head? with
  | none => exact hnone
  | some c =>
    obtain ⟨d, hd, hcd⟩ := h.head?_mem_firsts c hr
    refine hsome d ⟨?_, hn d hd⟩ c hcd
    cases canon with
    | nil => cases hd
    | cons d' canon =>
      cases hd
      exact ha.1

/-- A replacement takes its word out of the text and leaves the rest as it is. -/
theorem replace (hsep : s.separate later = true) (h : Spells (s :: later) canon raw)
    (ha : Adjoined canon) : Spells later canon (s.replace raw) := by
  induction h with
  | nil => exact .nil
  | @char canon raw c h ih =>
    obtain ⟨hc, hn, ha⟩ := ha
    have hclear : s.clear raw.head? [c] = true := by
      by_cases hs : c = s.head
      · subst hs
        exact clear_of_separate hsep h ha List.mem_cons_self hc hn
      · exact clear_of_ne_head hs _
    rw [show c :: raw = [c] ++ raw from rfl, replace_append_of_clear hclear]
    exact .char c (ih ha)
  | @word canon raw t ht h ih =>
    obtain ⟨hc, hn, ha⟩ := ha
    rcases List.mem_cons.1 ht with rfl | ht
    · rw [replace_word_append]
      exact .char _ (ih ha)
    · have hmem : (t.word, t.sign) ∈ s.suspects later :=
        List.mem_cons_of_mem _ (List.mem_map.2 ⟨t, ht, rfl⟩)
      rw [replace_append_of_clear (clear_of_separate hsep h ha hmem hc hn)]
      exact .word ht (ih ha)

/-- All replacements together leave the canonical text. -/
theorem foldl_replace (hsep : separateAll words = true) (h : Spells words canon raw)
    (ha : Adjoined canon) : words.foldl (fun text s => s.replace text) raw = canon := by
  induction words generalizing raw with
  | nil => exact h.eq_of_nil
  | cons s later ih =>
    rw [separateAll, Bool.and_eq_true] at hsep
    exact ih hsep.2 (h.replace hsep.1 ha)

end Spells

/-- The canonical form of spelled text without white space at its ends. -/
theorem canonicalChars_of_spells {canon raw text : List Char}
    (h : Spells Spelling.all canon raw) (ha : Grammar.Adjoined canon)
    (ht : Text.trim text = raw) : canonicalChars text = canon := by
  rw [canonicalChars, ht]
  exact h.foldl_replace Spelling.separateAll_all ha

/-! ## Derived text is adjoined -/

namespace Grammar

theorem adjoined_cons_of_blank {c : Char} {rest : List Char}
    (hc : Text.isAsciiWhiteSpace c = true) (h : Adjoined rest) : Adjoined (c :: rest) := by
  refine ⟨mem_alphabet_of_ascii hc, fun d _ => ?_, h⟩
  rcases Text.eq_of_ascii hc with rfl | rfl | rfl | rfl | rfl <;> rfl

theorem adjoined_append_of_blank {blank rest : List Char} (hb : Blank blank)
    (h : Adjoined rest) : Adjoined (blank ++ rest) := by
  induction blank with
  | nil => exact h
  | cons c blank ih =>
    exact adjoined_cons_of_blank (hb c List.mem_cons_self)
      (ih fun d hd => hb d (List.mem_cons_of_mem c hd))

theorem adjoined_letter {x : Variable} {rest : List Char} (h : Adjoined rest)
    (hr : ∀ d ∈ rest.head?, followsOperand d = true) : Adjoined (x.letter :: rest) :=
  ⟨letter_mem_alphabet x, fun d hd => by rw [mayPrecede, if_pos x.isVariable, hr d hd], h⟩

theorem adjoined_sign {op : Connective} {rest : List Char} (h : Adjoined rest)
    (hr : ∀ d ∈ rest.head?, (beginsOperand d || Text.isAsciiWhiteSpace d) = true) :
    Adjoined (op.sign :: rest) := by
  refine ⟨sign_mem_alphabet op, fun d hd => ?_, h⟩
  have := hr d hd
  cases op <;> exact this

theorem adjoined_negation (negated : Bool) {c : Char} {rest : List Char}
    (hc : c = '(' ∨ isVariableLetter c = true) (h : Adjoined (c :: rest)) :
    Adjoined (negation negated ++ c :: rest) := by
  cases negated
  · exact h
  · refine ⟨by decide, fun d hd => ?_, h⟩
    cases hd
    simpa [mayPrecede, show isVariableLetter '~' = false by decide] using hc

theorem IsOperand.begins {text : List Char} {f : Formula} (h : IsOperand text f) :
    ∃ c rest, text = c :: rest ∧ beginsOperand c = true := by
  cases h with
  | letter negated x =>
    cases negated
    · exact ⟨_, _, rfl, by simp [beginsOperand, x.isVariable]⟩
    · exact ⟨_, _, rfl, rfl⟩
  | group negated h => cases negated <;> exact ⟨_, _, rfl, rfl⟩

/-- White space stands wherever it may stand before the text. -/
theorem head?_append_of_blank {p : Char → Bool} {blank rest : List Char} (hb : Blank blank)
    (hp : ∀ c, Text.isAsciiWhiteSpace c = true → p c = true) (hr : ∀ d ∈ rest.head?, p d = true) :
    ∀ d ∈ (blank ++ rest).head?, p d = true := by
  cases blank with
  | nil => exact hr
  | cons c blank =>
    intro d hd
    cases hd
    exact hp c (hb c List.mem_cons_self)

theorem followsOperand_of_ascii (c : Char) (hc : Text.isAsciiWhiteSpace c = true) :
    followsOperand c = true := by
  simp [followsOperand, hc]

mutual

theorem IsOperand.adjoined {text : List Char} {f : Formula} (h : IsOperand text f)
    {rest : List Char} (hr : Adjoined rest) (hf : ∀ d ∈ rest.head?, followsOperand d = true) :
    Adjoined (text ++ rest) :=
  match h with
  | .letter negated x => by
    rw [List.append_assoc]
    exact adjoined_negation negated (.inr x.isVariable) (adjoined_letter hr hf)
  | @IsOperand.group negated body f h => by
    have hclose : Adjoined (')' :: rest) := ⟨by decide, fun _ _ => rfl, hr⟩
    have hbody : Adjoined (body ++ ')' :: rest) := h.adjoined hclose fun d hd => by cases hd; rfl
    have hopen : Adjoined ('(' :: (body ++ ')' :: rest)) := ⟨by decide, fun _ _ => rfl, hbody⟩
    have := adjoined_negation negated (.inl rfl) hopen
    simpa using this

/-- The rest of a level may stand directly after an operand. -/
theorem IsTail.adjoined {text : List Char} {items : List (Connective × Formula)}
    (h : IsTail text items) {rest : List Char} (hr : Adjoined rest)
    (hf : ∀ d ∈ rest.head?, followsOperand d = true) :
    Adjoined (text ++ rest) ∧ ∀ d ∈ (text ++ rest).head?, followsOperand d = true :=
  match h with
  | .nil hb =>
    ⟨adjoined_append_of_blank hb hr, head?_append_of_blank hb followsOperand_of_ascii hf⟩
  | @IsTail.cons before after text tail op f items hb ha ho ht => by
    obtain ⟨htail, hf⟩ := ht.adjoined hr hf
    have hafter : ∀ d ∈ (after ++ (text ++ (tail ++ rest))).head?,
        (beginsOperand d || Text.isAsciiWhiteSpace d) = true := by
      refine head?_append_of_blank ha (fun c hc => by simp [hc]) fun d hd => ?_
      obtain ⟨c, text', rfl, hc⟩ := ho.begins
      cases hd
      simp [hc]
    have hsign : Adjoined (op.sign :: (after ++ (text ++ (tail ++ rest)))) :=
      adjoined_sign (adjoined_append_of_blank ha (ho.adjoined htail hf)) hafter
    have hhead : ∀ d ∈ (op.sign :: (after ++ (text ++ (tail ++ rest)))).head?,
        followsOperand d = true := by
      intro d hd
      cases hd
      simp [followsOperand]
    have := And.intro (adjoined_append_of_blank hb hsign)
      (head?_append_of_blank hb followsOperand_of_ascii hhead)
    simpa using this

theorem IsLevel.adjoined {text : List Char} {f : Formula} (h : IsLevel text f)
    {rest : List Char} (hr : Adjoined rest) (hf : ∀ d ∈ rest.head?, followsOperand d = true) :
    Adjoined (text ++ rest) :=
  match h with
  | .mk hb ho ht => by
    obtain ⟨ht, hf⟩ := ht.adjoined hr hf
    have := adjoined_append_of_blank hb (ho.adjoined ht hf)
    simpa using this

end

theorem IsLevel.adjoined_self {text : List Char} {f : Formula} (h : IsLevel text f) :
    Adjoined text := by
  have hadj : Adjoined (text ++ []) := h.adjoined trivial fun d hd => by cases hd
  rwa [List.append_nil] at hadj

end Grammar

end TruthTables
