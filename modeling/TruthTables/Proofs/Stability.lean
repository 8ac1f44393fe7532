import TruthTables.Proofs.Printing

/-!
# Canonical text is its own canonical form

No word is found in text that the grammar derives, so only the white space around it can change:
`Grammar.IsLevel.canonicalChars_eq`. The canonical form of a text has no such white space, because a
replacement leaves the ends of a text as they are or puts a sign there (`Grammar.Tight.replace`).
So the canonical form of whatever is read is read as the same: `Grammar.canonical_eq_self`.
-/

set_option autoImplicit false

namespace TruthTables

/-! ## Replacements from left to right -/

namespace Spelling

variable {s : Spelling}

/-- A replacement goes on behind a word, or behind a character where no word begins. -/
@[elab_as_elim]
theorem replace_induction {motive : List Char → Prop} (nil : motive [])
    (word : ∀ rest, motive rest → motive (s.word ++ rest))
    (cons : ∀ c rest, ¬ s.word <+: c :: rest → motive rest → motive (c :: rest))
    (cs : List Char) : motive cs := by
  induction hn : cs.length using Nat.strongRecOn generalizing cs with
  | ind n ih =>
    by_cases hw : s.word <+: cs
    · obtain ⟨rest, rfl⟩ := hw
      refine word rest (ih rest.length ?_ rest rfl)
      rw [← hn, Spelling.word, List.length_append, List.length_cons]
      omega
    · cases cs with
      | nil => exact nil
      | cons c rest => exact cons c rest hw (ih rest.length (by simp [← hn]) rest rfl)

/-- The replaced text begins as the text does, or with the sign. -/
theorem exists_replace_eq_cons (s : Spelling) (c : Char) (rest : List Char) :
    ∃ d tail, s.replace (c :: rest) = d :: tail ∧ (d = c ∨ d = s.sign) := by
  rw [replace, replaceAfter]
  split
  · exact ⟨_, _, rfl, .inr rfl⟩
  · exact ⟨_, _, rfl, .inl rfl⟩

/-- The replaced text ends as the text does, or with the sign. -/
theorem exists_replace_eq_append (s : Spelling) (cs : List Char) (hne : cs ≠ []) :
    ∃ init d, s.replace cs = init ++ [d] ∧ (cs.getLast? = some d ∨ d = s.sign) := by
  induction cs using replace_induction (s := s) with
  | nil => exact absurd rfl hne
  | word rest ih =>
    rw [replace_word_append]
    by_cases hrest : rest = []
    · subst hrest
      exact ⟨[], s.sign, rfl, .inr rfl⟩
    · obtain ⟨init, d, hd, hlast⟩ := ih hrest
      refine ⟨s.sign :: init, d, by rw [hd]; rfl, hlast.imp_left fun hlast => ?_⟩
      rw [List.getLast?_append, hlast]
      rfl
  | cons c rest hw ih =>
    rw [replace_cons s hw]
    by_cases hrest : rest = []
    · subst hrest
      exact ⟨[], c, rfl, .inl rfl⟩
    · obtain ⟨init, d, hd, hlast⟩ := ih hrest
      rw [hd, List.getLast?_cons_of_ne_nil hrest]
      exact ⟨c :: init, d, rfl, hlast⟩

theorem isWhiteSpace_sign {s : Spelling} (hs : s ∈ all) : Text.isWhiteSpace s.sign = false := by
  have table : ∀ s ∈ all, Text.isWhiteSpace s.sign = false := by decide
  exact table s hs

end Spelling

namespace Grammar

/-! ## Tight text -/

theorem Tight.replace {text : List Char} {s : Spelling} (h : Tight text)
    (hs : Text.isWhiteSpace s.sign = false) : Tight (s.replace text) := by
  obtain ⟨⟨c, rest, hc, hcw⟩, d, init, hd, hdw⟩ := h
  refine ⟨?_, ?_⟩
  · obtain ⟨c', tail, heq, hc'⟩ := s.exists_replace_eq_cons c rest
    rw [hc]
    refine ⟨c', tail, heq, ?_⟩
    rcases hc' with rfl | rfl
    · exact hcw
    · exact hs
  · obtain ⟨init', d', heq, hd'⟩ := s.exists_replace_eq_append text (by simp [hc])
    refine ⟨d', init', heq, ?_⟩
    rw [hd, List.getLast?_concat] at hd'
    rcases hd' with hlast | rfl
    · rwa [← Option.some.inj hlast]
    · exact hs

theorem Tight.foldl_replace {text : List Char} {words : List Spelling} (h : Tight text)
    (hw : ∀ s ∈ words, Text.isWhiteSpace s.sign = false) :
    Tight (words.foldl (fun text s => s.replace text) text) := by
  induction words generalizing text with
  | nil => exact h
  | cons s words ih =>
    exact ih (h.replace (hw s List.mem_cons_self)) fun s' hs' => hw s' (List.mem_cons_of_mem s hs')

theorem exists_trimStart_eq_cons {cs : List Char} (h : Text.trimStart cs ≠ []) :
    ∃ c rest, Text.trimStart cs = c :: rest ∧ Text.isWhiteSpace c = false := by
  obtain ⟨c, rest, hc⟩ := List.exists_cons_of_ne_nil h
  have hhead := List.head_dropWhile_not (p := Text.isWhiteSpace) (l := cs) h
  rw [Text.trimStart] at hc
  simp only [hc, List.head_cons] at hhead
  exact ⟨c, rest, hc, hhead⟩

/-- What is left when white space is trimmed is tight. -/
theorem tight_trim {text : List Char} (h : Text.trim text ≠ []) : Tight (Text.trim text) := by
  have htrim : Text.trim text = (Text.trimStart (Text.trimStart text).reverse).reverse := rfl
  rw [htrim] at h ⊢
  have hstart : Text.trimStart text ≠ [] := fun hnil => h (by rw [hnil]; rfl)
  have hend : Text.trimStart (Text.trimStart text).reverse ≠ [] := fun hnil => h (by rw [hnil]; rfl)
  obtain ⟨c, rest, hc, hcw⟩ := exists_trimStart_eq_cons hstart
  obtain ⟨d, init, hd, hdw⟩ := exists_trimStart_eq_cons hend
  refine ⟨?_, d, init.reverse, by rw [hd, List.reverse_cons], hdw⟩
  -- From the right, the first character comes last, and it is not trimmed.
  rw [hc, List.reverse_cons, Text.trimStart, List.dropWhile_append]
  split
  · exact ⟨c, [], by simp [hcw], hcw⟩
  · exact ⟨c, _, List.reverse_concat, hcw⟩

theorem Tight.trim_eq {text : List Char} (h : Tight text) : Text.trim text = text := by
  have hpad := h.trim_pad .nil .nil
  rwa [List.nil_append, List.append_nil] at hpad

theorem tight_canonicalChars {text : List Char} (h : canonicalChars text ≠ []) :
    Tight (canonicalChars text) := by
  have htrim : Text.trim text ≠ [] := fun hnil => h (by rw [canonicalChars, hnil]; rfl)
  exact (tight_trim htrim).foldl_replace fun s => Spelling.isWhiteSpace_sign

/-! ## Derived text -/

/-- Text that the grammar derives is left as it is, if nothing is trimmed. -/
theorem IsLevel.canonicalChars_eq {text : List Char} {f : Formula} (h : IsLevel text f)
    (ht : Text.trim text = text) : canonicalChars text = text :=
  canonicalChars_of_spells (.refl _ _) h.adjoined_self ht

/-- A canonical form that the grammar derives is its own canonical form. -/
theorem IsLevel.canonicalChars_canonicalChars {text : List Char} {f : Formula}
    (h : IsLevel (canonicalChars text) f) :
    canonicalChars (canonicalChars text) = canonicalChars text := by
  refine h.canonicalChars_eq (tight_canonicalChars fun hnil => ?_).trim_eq
  exact h.trim_ne_nil (by rw [hnil]; rfl)

/-- **Canonical text is its own canonical form**: text that the grammar derives, without white space
at its ends, is left as it is; so the canonical form of whatever is read does not change any more,
and is read as the same. -/
theorem canonical_eq_self :
    (∀ (s : String) (f : Formula), IsLevel s.toList f → Text.trim s.toList = s.toList →
      canonical s = s) ∧
    ∀ (s : String) (e : Expression), Expression.parse s = .ok e →
      canonical (canonical s) = canonical s ∧
        Expression.parse (canonical s) = Expression.parse s := by
  refine ⟨fun s f h ht => ?_, fun s e h => ?_⟩
  · rw [canonical, h.canonicalChars_eq ht, String.ofList_toList]
  · have hl := (Expression.isLevel_of_ofCanonical h).1
    unfold canonical Expression.parse
    rw [String.toList_ofList, hl.canonicalChars_canonicalChars]
    exact ⟨rfl, rfl⟩

/-- What is read from `" (not a) && b\n"`, and from its canonical form. -/
theorem canonical_not_and :
    let e : Expression := ⟨.binary false .and (.letter true ⟨'a', rfl⟩) (.letter false ⟨'b', rfl⟩),
      [⟨'a', rfl⟩, ⟨'b', rfl⟩]⟩
    IsLevel "(~a) ^ b".toList e.root ∧ Text.trim "(~a) ^ b".toList = "(~a) ^ b".toList ∧
      canonical "(~a) ^ b" = "(~a) ^ b" ∧
      Expression.parse " (not a) && b\n" = .ok e ∧ Expression.parse "(~a) ^ b" = .ok e := by
  intro e
  have hcanonical : canonical " (not a) && b\n" = "(~a) ^ b" := by decide +kernel
  have hparse : Expression.parse " (not a) && b\n" = .ok e := by rfl
  have hsame := (canonical_eq_self.2 _ _ hparse).2
  rw [hcanonical, hparse] at hsame
  have hchars : canonicalChars " (not a) && b\n".toList = "(~a) ^ b".toList :=
    String.toList_ofList.symm.trans (congrArg String.toList hcanonical)
  have hl := (Expression.isLevel_of_ofCanonical hparse).1
  rw [hchars] at hl
  have htrim : Text.trim "(~a) ^ b".toList = "(~a) ^ b".toList := by decide
  exact ⟨hl, htrim, canonical_eq_self.1 _ _ hl htrim, hparse, hsame⟩

/-- Text that the grammar does not derive may go on changing. -/
example : canonical "-->" = "->" ∧ canonical "->" = ">" := by decide +kernel

end Grammar

end TruthTables
