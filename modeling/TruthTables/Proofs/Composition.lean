import TruthTables.Proofs.Stability

/-!
# Reading is compositional

No word has a parenthesis in it, so what is replaced on one side of a parenthesis does not hang on
the other side (`Spelling.replace_append_cons`): the canonical form of texts in parentheses with a
sign between them is made of their own canonical forms. It is derived if they are, and its
parentheses are nested one deeper (`Grammar.IsLevel.nests`). So texts that are read can be put
together, unless they are as deep or as high as `maxNesting` already: `Expression.parse_compose`.
-/

set_option autoImplicit false

namespace TruthTables

/-! ## Replacements are local -/

namespace Spelling

theorem replace_append_cons {s : Spelling} {c : Char} (hc : c ∉ s.word) (cs rest : List Char) :
    s.replace (cs ++ c :: rest) = s.replace cs ++ c :: s.replace rest := by
  induction cs using replace_induction (s := s) with
  | nil =>
    have hw : ¬ s.word <+: c :: rest := by
      rw [word, List.cons_prefix_cons]
      exact fun h => hc (by simp [word, h.1])
    rw [List.nil_append, replace_cons s hw, replace_nil, List.nil_append]
  | word cs ih =>
    rw [List.append_assoc, replace_word_append, replace_word_append, ih, List.cons_append]
  | cons d cs hw ih =>
    -- A match that begins before `c` and does not end there has `c` in it.
    have hw' : ¬ s.word <+: (d :: cs) ++ c :: rest := by
      refine not_word_prefix_append hw fun c' hc' hp => hc (hp.subset ?_)
      cases hc'
      simp
    rw [List.cons_append] at hw' ⊢
    rw [replace_cons s hw', replace_cons s hw, ih, List.cons_append]

/-- All replacements, one after the other. -/
def replaceAll (cs : List Char) : List Char := all.foldl (fun text s => s.replace text) cs

theorem foldl_replace_append_cons {words : List Spelling} {c : Char}
    (hc : ∀ s ∈ words, c ∉ s.word) (cs rest : List Char) :
    words.foldl (fun text s => s.replace text) (cs ++ c :: rest) =
      words.foldl (fun text s => s.replace text) cs ++
        c :: words.foldl (fun text s => s.replace text) rest := by
  induction words generalizing cs rest with
  | nil => rfl
  | cons s words ih =>
    rw [List.foldl_cons, replace_append_cons (hc s List.mem_cons_self)]
    exact ih (fun s' hs' => hc s' (List.mem_cons_of_mem s hs')) _ _

theorem replaceAll_append_opening (cs rest : List Char) :
    replaceAll (cs ++ '(' :: rest) = replaceAll cs ++ '(' :: replaceAll rest :=
  foldl_replace_append_cons (by decide) cs rest

theorem replaceAll_append_closing (cs rest : List Char) :
    replaceAll (cs ++ ')' :: rest) = replaceAll cs ++ ')' :: replaceAll rest :=
  foldl_replace_append_cons (by decide) cs rest

end Spelling

namespace Grammar

open Spelling

theorem canonicalChars_eq_replaceAll {cs : List Char} (h : Text.trim cs = cs) :
    canonicalChars cs = replaceAll cs := by
  rw [canonicalChars, h, replaceAll]

/-! ## Canonical forms of composed texts -/

/-- What may stand before a parenthesis to negate a group or not. -/
def negations (negated : Bool) : List String := if negated then negationSpellings else [""]

theorem replaceAll_negations {negated : Bool} {neg : String} (h : neg ∈ negations negated) :
    replaceAll neg.toList = negation negated := by
  have table : ∀ neg ∈ negations negated, replaceAll neg.toList = negation negated := by
    cases negated <;> decide
  exact table neg h

/-- A sign and the white space around it. -/
theorem replaceAll_connective {op : Connective} {word : String} {before after : List Char}
    (h : word ∈ op.spellings) (hb : Blank before) (ha : Blank after) :
    replaceAll (before ++ (word.toList ++ after)) = before ++ op.sign :: after := by
  have hspells := (Spells.refl Spelling.all before).append
    ((spells_connective h).append (Spells.refl _ after))
  have hafter : Adjoined (after ++ []) := adjoined_append_of_blank ha trivial
  rw [List.append_nil] at hafter
  have hsign : Adjoined (op.sign :: after) := adjoined_sign hafter fun d hd => by
    simp [ha d (List.mem_of_mem_head? hd)]
  exact hspells.foldl_replace separateAll_all (adjoined_append_of_blank hb hsign)

theorem tight_group {negated : Bool} {neg : String} (h : neg ∈ negations negated)
    (rest : List Char) : Tight (neg.toList ++ '(' :: (rest ++ [')'])) := by
  refine ⟨?_, ')', neg.toList ++ '(' :: rest, by simp, rfl⟩
  cases negated
  · obtain rfl : neg = "" := List.mem_singleton.1 h
    exact ⟨'(', rest ++ [')'], rfl, rfl⟩
  · obtain ⟨c, tail, hc, hw⟩ := negation_begins h
    exact ⟨c, tail ++ '(' :: (rest ++ [')']), by rw [hc, List.cons_append], hw⟩

theorem canonicalChars_group {negated : Bool} {neg : String} (h : neg ∈ negations negated)
    {cs : List Char} (hcs : Text.trim cs = cs) :
    canonicalChars (neg.toList ++ '(' :: (cs ++ [')'])) =
      negation negated ++ '(' :: (canonicalChars cs ++ [')']) := by
  rw [canonicalChars_eq_replaceAll (tight_group h cs).trim_eq, replaceAll_append_opening,
    replaceAll_append_closing, replaceAll_negations h, canonicalChars_eq_replaceAll hcs]
  rfl

theorem canonicalChars_joined {op : Connective} {word : String} {before after cs ds : List Char}
    (h : word ∈ op.spellings) (hb : Blank before) (ha : Blank after) (hcs : Text.trim cs = cs)
    (hds : Text.trim ds = ds) :
    canonicalChars ('(' :: (cs ++ ')' :: (before ++ (word.toList ++ after) ++
        '(' :: (ds ++ [')'])))) =
      '(' :: (canonicalChars cs ++ ')' :: (before ++ op.sign :: after ++
        '(' :: (canonicalChars ds ++ [')']))) := by
  have htight : Tight ('(' :: (cs ++ ')' :: (before ++ (word.toList ++ after) ++
      '(' :: (ds ++ [')'])))) := by
    have hbare : "" ∈ negations false := List.mem_cons_self
    simpa using tight_group hbare (cs ++ ')' :: (before ++ (word.toList ++ after) ++ '(' :: ds))
  rw [canonicalChars_eq_replaceAll htight.trim_eq]
  have hopen := replaceAll_append_opening [] (cs ++ ')' :: (before ++ (word.toList ++ after) ++
    '(' :: (ds ++ [')'])))
  rw [List.nil_append] at hopen
  rw [hopen, replaceAll_append_closing, replaceAll_append_opening, replaceAll_append_closing,
    replaceAll_connective h hb ha, canonicalChars_eq_replaceAll hcs,
    canonicalChars_eq_replaceAll hds]
  rfl

/-! ## Nesting of derived text -/

mutual

theorem IsOperand.exists_nests {text : List Char} {f : Formula} (h : IsOperand text f) :
    ∃ k, Nests k text :=
  match h with
  | .letter negated x => ⟨_, (Nests.negation negated).append (.letter x)⟩
  | .group negated h =>
    have ⟨_, hk⟩ := h.exists_nests
    ⟨_, (Nests.negation negated).append hk.group⟩

theorem IsTail.exists_nests {text : List Char} {items : List (Connective × Formula)}
    (h : IsTail text items) : ∃ k, Nests k text :=
  match h with
  | .nil hb => ⟨0, .blank hb⟩
  | @IsTail.cons _ _ _ _ op _ _ hb ha ho ht =>
    have ⟨_, ho⟩ := ho.exists_nests
    have ⟨_, ht⟩ := ht.exists_nests
    ⟨_, (Nests.blank hb).append ((Nests.sign op).append ((Nests.blank ha).append (ho.append ht)))⟩

theorem IsLevel.exists_nests {text : List Char} {f : Formula} (h : IsLevel text f) :
    ∃ k, Nests k text :=
  match h with
  | .mk hb ho ht =>
    have ⟨_, ho⟩ := ho.exists_nests
    have ⟨_, ht⟩ := ht.exists_nests
    ⟨_, (Nests.blank hb).append (ho.append ht)⟩

end

/-- The parentheses of derived text match. -/
theorem IsLevel.nests {text : List Char} {f : Formula} (h : IsLevel text f) :
    Nests (nesting text) text := by
  obtain ⟨k, hk⟩ := h.exists_nests
  rwa [hk.nesting_eq]

theorem IsLevel.isLevel_group {text : List Char} {f : Formula} (h : IsLevel text f)
    (negated : Bool) :
    IsLevel (negation negated ++ '(' :: (text ++ [')'])) (f.negateIf negated) ∧
      nesting (negation negated ++ '(' :: (text ++ [')'])) = nesting text + 1 := by
  rw [← toggle_eq_negateIf]
  refine ⟨(IsOperand.group negated h).isLevel, ?_⟩
  rw [((Nests.negation negated).append h.nests.group).nesting_eq, Nat.zero_max]

theorem IsLevel.isLevel_joined {left right before after : List Char} {f g : Formula}
    (hl : IsLevel left f) (hr : IsLevel right g) (op : Connective) (hb : Blank before)
    (ha : Blank after) :
    let text := '(' :: (left ++ ')' :: (before ++ op.sign :: after ++ '(' :: (right ++ [')'])))
    IsLevel text (.binary false op f g) ∧
      nesting text = max (nesting left) (nesting right) + 1 := by
  intro text
  have htext : text = '(' :: (left ++ [')']) ++
      (before ++ ([op.sign] ++ (after ++ '(' :: (right ++ [')'])))) := by simp [text]
  rw [htext]
  constructor
  · have htail := @IsTail.cons _ _ _ _ op _ _ hb ha (.group false hr) (.nil .nil)
    have hlevel := IsLevel.mk .nil (.group false hl) htail
    simpa [negation, toggle_eq_negateIf, Formula.negateIf] using hlevel
  · have hnests := hl.nests.group.append ((Nests.blank hb).append
      ((Nests.sign op).append ((Nests.blank ha).append hr.nests.group)))
    rw [hnests.nesting_eq]
    omega

end Grammar

/-! ## Reading composed texts -/

@[simp] theorem Formula.vars_negateIf (negated : Bool) (f : Formula) :
    (f.negateIf negated).vars = f.vars := by
  rw [vars, mentions_negateIf, vars]

namespace Expression

open Grammar

variable {s t : String} {e e₁ e₂ : Expression}

/-- A text in parentheses is read as the text, negated or not. -/
theorem parse_group {negated : Bool} {neg : String} (hneg : neg ∈ negations negated)
    (hs : Text.trim s.toList = s.toList) (h : parse s = .ok e) :
    (nesting (canonicalChars s.toList) ≠ maxNesting →
      parse (neg ++ "(" ++ s ++ ")") = .ok ⟨e.root.negateIf negated, e.vars⟩) ∧
    (nesting (canonicalChars s.toList) = maxNesting →
      ∃ p, parse (neg ++ "(" ++ s ++ ")") = .error (.nestingTooDeep p)) := by
  obtain ⟨hl, hn, hh, hv⟩ := isLevel_of_ofCanonical h
  obtain ⟨hgroup, hnesting⟩ := hl.isLevel_group negated
  have hchars : (neg ++ "(" ++ s ++ ")").toList = neg.toList ++ '(' :: (s.toList ++ [')']) := by
    simp
  unfold parse
  rw [hchars, canonicalChars_group hneg hs]
  refine ⟨fun hne => ?_, fun heq => ?_⟩
  · have hle : nesting (canonicalChars s.toList) + 1 ≤ maxNesting := by omega
    rw [ofCanonical_of_isLevel hgroup (by rwa [hnesting]) (by rwa [Formula.height_negateIf]),
      Formula.vars_negateIf, hv]
  · refine ofCanonical_of_isLevel_of_deep hgroup (.inl ?_)
    omega

/-- Two texts in parentheses are read as their trees under the connective between them. -/
theorem parse_joined (hs : Text.trim s.toList = s.toList) (ht : Text.trim t.toList = t.toList)
    (h₁ : parse s = .ok e₁) (h₂ : parse t = .ok e₂) {op : Connective}
    {word before after : String} (hw : word ∈ op.spellings) (hb : Blank before.toList)
    (ha : Blank after.toList) :
    let text := "(" ++ s ++ ")" ++ before ++ word ++ after ++ "(" ++ t ++ ")"
    let f : Formula := .binary false op e₁.root e₂.root
    let nested := max (nesting (canonicalChars s.toList)) (nesting (canonicalChars t.toList))
    (f.height ≤ maxNesting → nested < maxNesting → parse text = .ok ⟨f, f.vars⟩) ∧
    (maxNesting < f.height ∨ maxNesting ≤ nested →
      ∃ p, parse text = .error (.nestingTooDeep p)) := by
  intro text f nested
  obtain ⟨hl₁, -⟩ := isLevel_of_ofCanonical h₁
  obtain ⟨hl₂, -⟩ := isLevel_of_ofCanonical h₂
  obtain ⟨hjoined, hnesting⟩ := hl₁.isLevel_joined hl₂ op hb ha
  have hchars : text.toList = '(' :: (s.toList ++ ')' ::
      (before.toList ++ (word.toList ++ after.toList) ++ '(' :: (t.toList ++ [')']))) := by
    simp [text]
  unfold parse
  rw [hchars, canonicalChars_joined hw hb ha hs ht]
  refine ⟨fun hheight hnested => ?_, fun hdeep => ?_⟩
  · exact ofCanonical_of_isLevel hjoined (by rw [hnesting]; exact hnested) hheight
  · refine ofCanonical_of_isLevel_of_deep hjoined (hdeep.symm.imp (fun hnested => ?_) id)
    rw [hnesting]
    exact Nat.lt_succ_of_le hnested

/-- **Reading is compositional**: two texts in parentheses with a connective between them, however
it is spelled, are read as the trees of the texts under that connective; one text in parentheses is
read as its tree, with the flag of the root flipped if a negation stands before it. Only texts that
are as high or nested as deep as `maxNesting` already are refused as too deep. -/
theorem parse_compose (hs : Text.trim s.toList = s.toList) (ht : Text.trim t.toList = t.toList)
    (h₁ : parse s = .ok e₁) (h₂ : parse t = .ok e₂) :
    let deep (s : String) : Prop := nesting (canonicalChars s.toList) = maxNesting
    (∀ (op : Connective) (word before after : String), word ∈ op.spellings →
      Blank before.toList → Blank after.toList →
      let text := "(" ++ s ++ ")" ++ before ++ word ++ after ++ "(" ++ t ++ ")"
      let tooDeep := e₁.root.height = maxNesting ∨ e₂.root.height = maxNesting ∨ deep s ∨ deep t
      (¬ tooDeep → ∃ xs, parse text = .ok ⟨.binary false op e₁.root e₂.root, xs⟩ ∧
        xs.Pairwise (· < ·) ∧ ∀ x, x ∈ xs ↔ x ∈ e₁.vars ∨ x ∈ e₂.vars) ∧
      (tooDeep → ∃ p, parse text = .error (.nestingTooDeep p))) ∧
    (∀ neg ∈ negationSpellings,
      (¬ deep s → parse (neg ++ "(" ++ s ++ ")") = .ok ⟨toggle true e₁.root, e₁.vars⟩) ∧
      (deep s → ∃ p, parse (neg ++ "(" ++ s ++ ")") = .error (.nestingTooDeep p))) ∧
    (¬ deep s → parse ("(" ++ s ++ ")") = .ok e₁) ∧
    (deep s → ∃ p, parse ("(" ++ s ++ ")") = .error (.nestingTooDeep p)) := by
  intro deep
  obtain ⟨-, hn₁, hh₁, hv₁⟩ := isLevel_of_ofCanonical h₁
  obtain ⟨-, hn₂, hh₂, hv₂⟩ := isLevel_of_ofCanonical h₂
  refine ⟨fun op word before after hw hb ha => ?_, fun neg hneg => ?_, ?_⟩
  · obtain ⟨hok, herror⟩ := parse_joined hs ht h₁ h₂ hw hb ha
    simp only [Formula.height] at hok herror
    refine ⟨fun hnot => ?_, fun hdeep => herror ?_⟩
    · simp only [deep, not_or] at hnot
      refine ⟨_, hok (by omega) (by omega), Formula.pairwise_vars _, fun x => ?_⟩
      rw [hv₁, hv₂]
      simp [Formula.mentions]
    · simp only [deep] at hdeep
      omega
  · have hnegated : neg ∈ negations true := hneg
    rw [toggle_eq_negateIf]
    exact parse_group hnegated hs h₁
  · have hbare : "" ∈ negations false := List.mem_cons_self
    have hgroup := parse_group hbare hs h₁
    rwa [String.empty_append] at hgroup

/-- `p or q` and `!r` are put together into an implication, and the first one is negated. -/
theorem parse_or_implies_not :
    let f (negated : Bool) : Formula :=
      .binary negated .or (.letter false ⟨'p', rfl⟩) (.letter false ⟨'q', rfl⟩)
    let g : Formula := .letter true ⟨'r', rfl⟩
    let xs : List Variable := [⟨'p', rfl⟩, ⟨'q', rfl⟩]
    Text.trim "p or q".toList = "p or q".toList ∧ Text.trim "!r".toList = "!r".toList ∧
      parse "p or q" = .ok ⟨f false, xs⟩ ∧ parse "!r" = .ok ⟨g, [⟨'r', rfl⟩]⟩ ∧
      (∃ ys, parse "(p or q) -> (!r)" = .ok ⟨.binary false .implies (f false) g, ys⟩ ∧
        ∀ y, y ∈ ys ↔ y ∈ xs ∨ y ∈ [⟨'r', rfl⟩]) ∧
      parse "not (p or q)" = .ok ⟨f true, xs⟩ ∧ parse "(p or q)" = .ok ⟨f false, xs⟩ := by
  intro f g xs
  have hs : Text.trim "p or q".toList = "p or q".toList := by decide
  have ht : Text.trim "!r".toList = "!r".toList := by decide
  have h₁ : parse "p or q" = .ok ⟨f false, xs⟩ := by rfl
  have h₂ : parse "!r" = .ok ⟨g, [⟨'r', rfl⟩]⟩ := by rfl
  have hblank : Blank " ".toList := by simp [Blank]; rfl
  have hdeep₁ : nesting (canonicalChars "p or q".toList) ≠ maxNesting := by decide
  have hdeep₂ : nesting (canonicalChars "!r".toList) ≠ maxNesting := by decide
  have hheight₁ : (f false).height ≠ maxNesting := by decide
  have hheight₂ : g.height ≠ maxNesting := by decide
  obtain ⟨hjoin, hnegate, hgroup, -⟩ := parse_compose hs ht h₁ h₂
  obtain ⟨hok, -⟩ := hjoin .implies "->" " " " " (by decide) hblank hblank
  obtain ⟨ys, hys, -, hmem⟩ :=
    hok (not_or_intro hheight₁ (not_or_intro hheight₂ (not_or_intro hdeep₁ hdeep₂)))
  exact ⟨hs, ht, h₁, h₂, ⟨ys, hys, hmem⟩, (hnegate "not " (by decide)).1 hdeep₁, hgroup hdeep₁⟩

end Expression

end TruthTables
