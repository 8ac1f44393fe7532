import TruthTables.Proofs.Labels
import TruthTables.Proofs.Reading
import TruthTables.Proofs.Respelling

/-!
# Printed formulas

`Printed operand f text`: a text of the formula with the parentheses of its label, where every sign
is spelled and every white space set at will. Such a text spells canonical text that the grammar
derives (`Printed.spells`), nested no deeper than the tree is high, so it is read as the formula
while that is not higher than `maxNesting`. The label is one of these texts:
`Formula.printed_written`.
-/

set_option autoImplicit false

namespace TruthTables

/-! ## Spellings -/

/-- The ways to write a connective. -/
def Connective.spellings : Connective → List String
  | and => ["^", "and", "&&"]
  | or => ["v", "or", "||"]
  | implies => [">", "->"]
  | iff => ["-", "<->"]

/-- The ways to write a negation directly before a variable or a parenthesis. -/
def negationSpellings : List String := ["~", "!", "not", "not "]

namespace Grammar

/-- A text of the formula, as an operand or bare. -/
inductive Printed : (operand : Bool) → Formula → List Char → Prop
  | letter (operand : Bool) (x : Variable) : Printed operand (.letter false x) [x.letter]
  | negatedLetter (operand : Bool) (x : Variable) {neg : String}
    (hn : neg ∈ negationSpellings) : Printed operand (.letter true x) (neg.toList ++ [x.letter])
  | bare {op : Connective} {l r : Formula} {word : String} {left right before after : List Char}
    (hl : Printed true l left) (hr : Printed true r right) (hw : word ∈ op.spellings)
    (hb : Blank before) (ha : Blank after) :
    Printed false (.binary false op l r)
      (left ++ (before ++ (word.toList ++ (after ++ right))))
  | enclosed {op : Connective} {l r : Formula} {text before after : List Char}
    (h : Printed false (.binary false op l r) text) (hb : Blank before) (ha : Blank after) :
    Printed true (.binary false op l r) ('(' :: (before ++ (text ++ after) ++ [')']))
  | negated (operand : Bool) {op : Connective} {l r : Formula} {neg : String}
    {text before after : List Char} (hn : neg ∈ negationSpellings)
    (h : Printed false (.binary false op l r) text) (hb : Blank before) (ha : Blank after) :
    Printed operand (.binary true op l r)
      (neg.toList ++ '(' :: (before ++ (text ++ after) ++ [')']))

/-! ## Spelled signs -/

theorem spells_sign {sign : Char} {word : List Char}
    (h : word = [sign] ∨ ∃ s ∈ Spelling.all, s.sign = sign ∧ s.word = word) :
    Spells Spelling.all [sign] word := by
  rcases h with rfl | ⟨s, hs, rfl, rfl⟩
  · exact .refl _ _
  · exact .single hs

theorem spells_connective {op : Connective} {word : String} (h : word ∈ op.spellings) :
    Spells Spelling.all [op.sign] word.toList := by
  have table : ∀ word ∈ op.spellings, word.toList = [op.sign] ∨
      ∃ s ∈ Spelling.all, s.sign = op.sign ∧ s.word = word.toList := by cases op <;> decide
  exact spells_sign (table word h)

theorem spells_negation {neg : String} (h : neg ∈ negationSpellings) :
    Spells Spelling.all (negation true) neg.toList := by
  have table : ∀ word ∈ negationSpellings, word.toList = ['~'] ∨
      ∃ s ∈ Spelling.all, s.sign = '~' ∧ s.word = word.toList := by decide
  exact spells_sign (table neg h)

/-! ## Nesting -/

/-- The parentheses of the text match and are nested `k` deep. -/
def Nests (k : Nat) (cs : List Char) : Prop :=
  ∀ depth rest, deepest depth (cs ++ rest) = max (depth + k) (deepest depth rest)

theorem Nests.append {j k : Nat} {cs ds : List Char} (hc : Nests j cs) (hd : Nests k ds) :
    Nests (max j k) (cs ++ ds) := by
  intro depth rest
  rw [List.append_assoc, hc, hd]
  omega

theorem Nests.flat {cs : List Char} (h : ∀ c ∈ cs, c ≠ '(' ∧ c ≠ ')') : Nests 0 cs := by
  intro depth rest
  have hle := le_deepest depth rest
  induction cs with
  | nil =>
    rw [List.nil_append]
    omega
  | cons c cs ih =>
    obtain ⟨ho, hc⟩ := h c List.mem_cons_self
    rw [List.cons_append, deepest, if_neg ho, if_neg hc]
    exact ih fun d hd => h d (List.mem_cons_of_mem c hd)

theorem Nests.group {k : Nat} {cs : List Char} (h : Nests k cs) :
    Nests (k + 1) ('(' :: (cs ++ [')'])) := by
  intro depth rest
  have hle := le_deepest depth rest
  have hopen : deepest depth ('(' :: (cs ++ [')']) ++ rest) =
      deepest (depth + 1) (cs ++ ')' :: rest) := by simp [deepest]
  have hclose : deepest (depth + 1) (')' :: rest) = max (depth + 1) (deepest depth rest) := rfl
  rw [hopen, h, hclose]
  omega

theorem Nests.nesting_eq {k : Nat} {cs : List Char} (h : Nests k cs) : nesting cs = k := by
  have hdeep := h 0 []
  rw [List.append_nil] at hdeep
  unfold nesting
  rw [hdeep]
  simp [deepest]

theorem Nests.blank {cs : List Char} (h : Blank cs) : Nests 0 cs := by
  refine .flat fun c hc => ?_
  have hblank := h c hc
  constructor
  · rintro rfl
    cases hblank
  · rintro rfl
    cases hblank

theorem Nests.pad {k : Nat} {cs before after : List Char} (h : Nests k cs) (hb : Blank before)
    (ha : Blank after) : Nests k (before ++ (cs ++ after)) := by
  have hpad := (Nests.blank hb).append (h.append (.blank ha))
  simpa using hpad

theorem Nests.sign (op : Connective) : Nests 0 [op.sign] := by
  refine .flat fun c hc => ?_
  rw [List.mem_singleton] at hc
  subst hc
  cases op <;> decide

theorem Nests.letter (x : Variable) : Nests 0 [x.letter] := by
  refine .flat fun c hc => ?_
  rw [List.mem_singleton] at hc
  subst hc
  exact ⟨x.letter_ne (by decide), x.letter_ne (by decide)⟩

theorem Nests.negation (negated : Bool) : Nests 0 (negation negated) := by
  cases negated <;> exact .flat (by simp [Grammar.negation])

/-! ## Printed text is derived when spelled canonically -/

/-- A canonical text of the formula, as an operand or as a level. -/
def IsText (operand : Bool) (text : List Char) (f : Formula) : Prop :=
  if operand then IsOperand text f else IsLevel text f

theorem IsOperand.isText {text : List Char} {f : Formula} (h : IsOperand text f)
    (operand : Bool) : IsText operand text f := by
  cases operand
  · exact h.isLevel
  · exact h

/-- Parentheses are nested no deeper than the tree is high, and less deep in a bare text that has
none around the whole. -/
theorem Printed.spells {operand : Bool} {f : Formula} {text : List Char}
    (h : Printed operand f text) :
    ∃ canon k, Spells Spelling.all canon text ∧ IsText operand canon f ∧ Nests k canon ∧
      k ≤ f.height ∧ (operand = false → f.isNegated = false → k < f.height) := by
  induction h with
  | letter operand x =>
    exact ⟨[x.letter], 0, .refl _ _, (IsOperand.letter false x).isText operand, .letter x,
      Nat.zero_le _, fun _ _ => Nat.zero_lt_one⟩
  | negatedLetter operand x hn =>
    exact ⟨negation true ++ [x.letter], _, (spells_negation hn).append (.refl _ _),
      (IsOperand.letter true x).isText operand, (Nests.negation true).append (.letter x),
      Nat.zero_le _, fun _ _ => Nat.zero_lt_one⟩
  | @bare op l r word left right before after hl hr hw hb ha ihl ihr =>
    obtain ⟨cl, j, hsl, htl, hnl, hjl, -⟩ := ihl
    obtain ⟨cr, k, hsr, htr, hnr, hkr, -⟩ := ihr
    have hs := hsl.append ((Spells.refl _ before).append
      ((spells_connective hw).append ((Spells.refl _ after).append hsr)))
    have hn := hnl.append ((Nests.blank hb).append
      ((Nests.sign op).append ((Nests.blank ha).append hnr)))
    have ht : IsLevel ([] ++ (cl ++ (before ++ op.sign :: (after ++ (cr ++ []))))) _ :=
      .mk .nil htl (.cons hb ha htr (.nil .nil))
    have hk : max j (max 0 (max 0 (max 0 k))) < (Formula.binary false op l r).height := by
      simp only [Formula.height]
      omega
    refine ⟨cl ++ (before ++ ([op.sign] ++ (after ++ cr))), _, hs, ?_, hn, Nat.le_of_lt hk,
      fun _ _ => hk⟩
    simpa [IsText] using ht
  | @enclosed op l r text before after h hb ha ih =>
    obtain ⟨canon, k, hs, ht, hn, -, hk⟩ := ih
    exact ⟨_, _, hs.enclose before after, .group false (IsLevel.pad ht hb ha),
      (hn.pad hb ha).group, hk rfl rfl, fun h => by cases h⟩
  | @negated operand op l r neg text before after hneg h hb ha ih =>
    obtain ⟨canon, k, hs, ht, hn, -, hk⟩ := ih
    have hlt : k + 1 ≤ (Formula.binary true op l r).height := hk rfl rfl
    refine ⟨_, _, (spells_negation hneg).append (hs.enclose before after),
      (IsOperand.group true (IsLevel.pad ht hb ha)).isText operand,
      (Nests.negation true).append (hn.pad hb ha).group, ?_, fun _ h => by cases h⟩
    rwa [Nat.zero_max]

/-! ## The ends of printed text -/

theorem negation_begins {neg : String} (h : neg ∈ negationSpellings) :
    ∃ c rest, neg.toList = c :: rest ∧ Text.isWhiteSpace c = false := by
  simp only [negationSpellings, List.mem_cons, List.not_mem_nil, or_false] at h
  rcases h with rfl | rfl | rfl | rfl
  · exact ⟨'~', [], rfl, rfl⟩
  · exact ⟨'!', [], rfl, rfl⟩
  · exact ⟨'n', ['o', 't'], rfl, rfl⟩
  · exact ⟨'n', ['o', 't', ' '], rfl, rfl⟩

theorem Printed.begins {operand : Bool} {f : Formula} {text : List Char}
    (h : Printed operand f text) : ∃ c rest, text = c :: rest ∧ Text.isWhiteSpace c = false := by
  induction h with
  | letter operand x => exact ⟨x.letter, [], rfl, x.isWhiteSpace_letter⟩
  | negatedLetter operand x hn =>
    obtain ⟨c, rest, hc, hw⟩ := negation_begins hn
    exact ⟨c, _, by rw [hc]; rfl, hw⟩
  | bare hl hr hw hb ha ihl ihr =>
    obtain ⟨c, rest, rfl, hw⟩ := ihl
    exact ⟨c, _, rfl, hw⟩
  | enclosed h hb ha ih => exact ⟨'(', _, rfl, rfl⟩
  | negated operand hn h hb ha ih =>
    obtain ⟨c, rest, hc, hw⟩ := negation_begins hn
    exact ⟨c, _, by rw [hc]; rfl, hw⟩

theorem Printed.ends {operand : Bool} {f : Formula} {text : List Char}
    (h : Printed operand f text) : ∃ c rest, text = rest ++ [c] ∧ Text.isWhiteSpace c = false := by
  induction h with
  | letter operand x => exact ⟨x.letter, [], rfl, x.isWhiteSpace_letter⟩
  | negatedLetter operand x hn => exact ⟨x.letter, _, rfl, x.isWhiteSpace_letter⟩
  | @bare op l r word left right before after hl hr hw hb ha ihl ihr =>
    obtain ⟨c, rest, rfl, hw⟩ := ihr
    exact ⟨c, left ++ (before ++ (word.toList ++ (after ++ rest))), by simp, hw⟩
  | @enclosed op l r text before after h hb ha ih =>
    exact ⟨')', '(' :: (before ++ (text ++ after)), by simp, rfl⟩
  | @negated operand op l r neg text before after hn h hb ha ih =>
    exact ⟨')', neg.toList ++ '(' :: (before ++ (text ++ after)), by simp, rfl⟩

theorem trimStart_append {before text : List Char} (hb : Blank before) :
    Text.trimStart (before ++ text) = Text.trimStart text :=
  List.dropWhile_append_of_pos fun c hc => Text.isWhiteSpace_of_ascii (hb c hc)

/-- Text that neither begins nor ends with white space. -/
def Tight (text : List Char) : Prop :=
  (∃ c rest, text = c :: rest ∧ Text.isWhiteSpace c = false) ∧
    ∃ c rest, text = rest ++ [c] ∧ Text.isWhiteSpace c = false

theorem Printed.tight {operand : Bool} {f : Formula} {text : List Char}
    (h : Printed operand f text) : Tight text := ⟨h.begins, h.ends⟩

/-- Nothing but the white space around a tight text is trimmed. -/
theorem Tight.trim_pad {text before after : List Char} (h : Tight text) (hb : Blank before)
    (ha : Blank after) : Text.trim (before ++ (text ++ after)) = text := by
  obtain ⟨⟨c, rest, hc, hcw⟩, d, init, hd, hdw⟩ := h
  have hstart : Text.trimStart (before ++ (text ++ after)) = text ++ after := by
    rw [trimStart_append hb, hc, List.cons_append, Text.trimStart, List.dropWhile_cons, hcw]
    rfl
  have hrev : Blank after.reverse := by
    intro c hc
    exact ha c (List.mem_reverse.1 hc)
  have hend : Text.trimStart (after.reverse ++ text.reverse) = Text.trimStart text.reverse :=
    trimStart_append hrev
  unfold Text.trimStart at hend
  unfold Text.trim Text.trimEnd
  rw [hstart, List.reverse_append, hend, hd]
  simp [hdw]

/-- Printed text has a canonical form that the grammar derives. -/
theorem Printed.canonicalChars {f : Formula} {text before after : List Char}
    (h : Printed false f text) (hb : Blank before) (ha : Blank after) :
    IsLevel (canonicalChars (before ++ (text ++ after))) f ∧
      nesting (canonicalChars (before ++ (text ++ after))) ≤ f.height := by
  obtain ⟨canon, k, hs, ht, hn, hk, -⟩ := h.spells
  have hl : IsLevel canon f := ht
  rw [canonicalChars_of_spells hs hl.adjoined_self (h.tight.trim_pad hb ha), hn.nesting_eq]
  exact ⟨hl, hk⟩

end Grammar

namespace Expression

open Grammar

theorem parse_ofList (text : List Char) :
    parse (String.ofList text) = ofCanonical (canonicalChars text) := by
  unfold parse
  rw [String.toList_ofList]

/-- **Spelling and white space do not change what is read**: a text of a formula, with any spelling
of every sign and white space wherever it may stand, is read as the formula. -/
theorem parse_printed {f : Formula} {text before after : List Char} (h : Printed false f text)
    (hb : Blank before) (ha : Blank after) (hf : f.height ≤ maxNesting) :
    parse (String.ofList (before ++ (text ++ after))) = .ok ⟨f, f.vars⟩ := by
  obtain ⟨hl, hn⟩ := h.canonicalChars hb ha
  rw [parse_ofList]
  exact ofCanonical_of_isLevel hl (Nat.le_trans hn hf) hf

/-- Words are found among letters of which words are made: `notoorr` is `~o v r`. -/
theorem parse_notoorr :
    let f : Formula := .binary false .or (.letter true ⟨'o', rfl⟩) (.letter false ⟨'r', rfl⟩)
    Printed false f "notoorr".toList ∧ Blank [] ∧ Blank ['\n'] ∧ f.height ≤ maxNesting ∧
      parse "notoorr\n" = .ok ⟨f, [⟨'o', rfl⟩, ⟨'r', rfl⟩]⟩ := by
  intro f
  have hneg : Printed true (.letter true ⟨'o', rfl⟩) ("not".toList ++ ['o']) :=
    .negatedLetter true _ (by decide)
  have hor : "or" ∈ Connective.or.spellings := by decide
  have hp : Printed false f "notoorr".toList :=
    .bare hneg (.letter true ⟨'r', rfl⟩) hor .nil .nil
  have hn : Blank ['\n'] := by simp [Blank]; rfl
  have hh : f.height ≤ maxNesting := by decide
  have htext : String.ofList ([] ++ ("notoorr".toList ++ ['\n'])) = "notoorr\n" := by decide
  have hvars : f.vars = [⟨'o', rfl⟩, ⟨'r', rfl⟩] := by decide
  refine ⟨hp, .nil, hn, hh, ?_⟩
  rw [← htext, parse_printed hp .nil hn hh, hvars]

end Expression

/-! ## Labels -/

open Grammar in
/-- A label is a printed text of its formula. -/
theorem Formula.printed_written (f : Formula) :
    Printed true f (f.enclosed f.written) ∧ Printed false f f.written := by
  have hspace : Blank [' '] := by simp [Blank]; rfl
  have hneg : "~" ∈ negationSpellings := by decide
  induction f with
  | letter negated x =>
    cases negated
    · exact ⟨.letter true x, .letter false x⟩
    · exact ⟨.negatedLetter true x hneg, .negatedLetter false x hneg⟩
  | binary negated op l r ihl ihr =>
    have hop : op.token ∈ op.spellings := by cases op <;> decide
    have hbare : Printed false (.binary false op l r) (written (.binary false op l r)) :=
      .bare ihl.1 ihr.1 hop hspace hspace
    have hsplit : ∀ text : List Char,
        '(' :: (text ++ [')']) = '(' :: ([] ++ (text ++ []) ++ [')']) := by simp
    cases negated
    · refine ⟨?_, hbare⟩
      show Printed true _ ('(' :: (written (.binary false op l r) ++ [')']))
      rw [hsplit]
      exact .enclosed hbare .nil .nil
    · have hnegated : ∀ operand, Printed operand (.binary true op l r)
          ("~".toList ++ '(' :: (written (.binary false op l r) ++ [')'])) := by
        intro operand
        rw [hsplit]
        exact .negated operand hneg hbare .nil .nil
      exact ⟨hnegated true, hnegated false⟩

namespace Grammar

/-- A label spells canonical text of the formula, nested no deeper than the tree is high. -/
theorem isLevel_label (f : Formula) :
    IsLevel (canonicalChars f.label.toList) f ∧
      nesting (canonicalChars f.label.toList) ≤ f.height := by
  have h := f.printed_written.2.canonicalChars .nil .nil
  rw [List.nil_append, List.append_nil] at h
  rw [Formula.toList_label]
  exact h

end Grammar

namespace Expression

open Grammar

theorem parse_label_of_le {f : Formula} (h : f.height ≤ maxNesting) :
    parse f.label = .ok ⟨f, f.vars⟩ := by
  obtain ⟨hl, hn⟩ := isLevel_label f
  exact ofCanonical_of_isLevel hl (Nat.le_trans hn h) h

/-- The label of a formula, its variables and its height are all that its reading needs. -/
theorem parse_of_label {s : String} {f : Formula} {xs : List Variable} (hs : f.label = s)
    (hxs : f.vars = xs) (h : f.height ≤ maxNesting) : parse s = .ok ⟨f, xs⟩ := by
  rw [← hs, ← hxs, parse_label_of_le h]

theorem parse_label_of_lt {f : Formula} (h : maxNesting < f.height) :
    ∃ p, parse f.label = .error (.nestingTooDeep p) :=
  ofCanonical_of_isLevel_of_deep (isLevel_label f).1 (.inr h)

/-- **Printing and reading are inverse up to `maxNesting`**: the label of a formula is read as that
formula exactly if it is not too high, and refused as nested too deep exactly if it is; and whatever
has been read is read again from its label. -/
theorem parse_label_iff :
    (∀ f : Formula,
      (parse f.label = .ok ⟨f, f.vars⟩ ↔ f.height ≤ maxNesting) ∧
      ((∃ p, parse f.label = .error (.nestingTooDeep p)) ↔ maxNesting < f.height) ∧
      f.vars.Pairwise (· < ·) ∧ ∀ x, x ∈ f.vars ↔ f.mentions x = true) ∧
    ∀ s e, parse s = .ok e → parse e.label = .ok e := by
  refine ⟨fun f => ⟨⟨fun h => ?_, parse_label_of_le⟩, ⟨?_, parse_label_of_lt⟩, f.pairwise_vars,
    fun _ => Formula.mem_vars⟩, fun s e h => ?_⟩
  · exact (isLevel_of_ofCanonical h).2.2.1
  · rintro ⟨p, h⟩
    refine Nat.lt_of_not_le fun hle => ?_
    rw [parse_label_of_le hle] at h
    cases h
  · obtain ⟨-, -, hf, hv⟩ := isLevel_of_ofCanonical h
    rw [label, parse_label_of_le hf, ← hv]

end Expression

end TruthTables
