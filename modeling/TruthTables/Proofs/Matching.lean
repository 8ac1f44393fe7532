import TruthTables.Expression

/-!
# Tokens and the levels that they make

`Level.Matched tokens l`: the parentheses among the tokens match, and the tokens are the level `l`.
`Nesting.Describes n tokens` is the invariant of reading tokens from the right: the current level is
matched and ends at the first `)` without a partner, at the first `(` that is never closed, or with
the last token. From it, `Nesting.fault?` finds nothing exactly in matched tokens:
`Nesting.matched_of_fault?` and `Nesting.ofTokens_of_matched`.
-/

set_option autoImplicit false

namespace TruthTables

namespace Level

/-- The level that goes on with another one where this one ends. -/
def append : Level → Level → Level
  | nil, after => after
  | letter negated x p rest, after => letter negated x p (rest.append after)
  | connective op p rest, after => connective op p (rest.append after)
  | group negated p body rest, after => group negated p body (rest.append after)

@[simp] theorem append_nil (l : Level) : l.append nil = l := by
  induction l with
  | nil => rfl
  | letter negated x p rest ih => rw [append, ih]
  | connective op p rest ih => rw [append, ih]
  | group negated p body rest _ ih => rw [append, ih]

/-- The tokens of a level, whose parentheses match. -/
inductive Matched : List Token → Level → Prop
  | nil : Matched [] nil
  | letter {ts : List Token} {l : Level} (negated : Bool) (x : Variable) (p : Nat)
    (h : Matched ts l) : Matched (.letter negated x p :: ts) (letter negated x p l)
  | connective {ts : List Token} {l : Level} (op : Connective) (p : Nat) (h : Matched ts l) :
    Matched (.connective op p :: ts) (connective op p l)
  | group {ts us : List Token} {body l : Level} (negated : Bool) (p q : Nat)
    (hb : Matched us body) (h : Matched ts l) :
    Matched (.opening negated p :: (us ++ .closing q :: ts)) (group negated p body l)

end Level

namespace Nesting

open Level

/-! ## Matched tokens are read as their level -/

theorem foldr_of_matched {ts : List Token} {l : Level} (h : Matched ts l) (n : Nesting) :
    ts.foldr (fun t n => n.prepend t) n = { n with current := l.append n.current } := by
  induction h generalizing n with
  | nil => rfl
  | letter negated x p h ih => rw [List.foldr_cons, ih, prepend, Level.append]
  | connective op p h ih => rw [List.foldr_cons, ih, prepend, Level.append]
  | @group ts us body l negated p q hb h ihb ih =>
    rw [List.foldr_cons, List.foldr_append, List.foldr_cons, ih, prepend, ihb, prepend]
    simp [Level.append]

theorem ofTokens_of_matched {ts : List Token} {l : Level} (h : Matched ts l) :
    ofTokens ts = ⟨l, [], none⟩ := by
  rw [ofTokens, foldr_of_matched h]
  simp [empty]

/-! ## What is known of any tokens -/

/-- What `n` says of the tokens that have been read. -/
inductive Describes : Nesting → List Token → Prop
  | matched {ts : List Token} {l : Level} (h : Matched ts l) : Describes ⟨l, [], none⟩ ts
  | unclosed {ts us : List Token} {l : Level} (negated : Bool) (p : Nat) (h : Matched ts l) :
    Describes ⟨l, [], some p⟩ (ts ++ .opening negated p :: us)
  | pending {ts us : List Token} {l after : Level} {outer : List (Nat × Level)}
    {unclosed : Option Nat} (q : Nat) (h : Matched ts l)
    (hr : Describes ⟨after, outer, unclosed⟩ us) :
    Describes ⟨l, (q, after) :: outer, unclosed⟩ (ts ++ .closing q :: us)

/-- Tokens that lengthen the current level on its left change nothing else. -/
theorem Describes.extend {n : Nesting} {ts : List Token} {l : Level} (h : Describes n ts)
    (us : List Token) (hl : ∀ ts', Matched ts' n.current → Matched (us ++ ts') l) :
    Describes { n with current := l } (us ++ ts) := by
  cases h with
  | matched h => exact .matched (hl _ h)
  | unclosed negated p h =>
    rw [← List.append_assoc]
    exact .unclosed negated p (hl _ h)
  | pending q h hr =>
    rw [← List.append_assoc]
    exact .pending q (hl _ h) hr

theorem Describes.prepend {n : Nesting} {ts : List Token} (h : Describes n ts) (t : Token) :
    Describes (n.prepend t) (t :: ts) := by
  cases t with
  | letter negated x p => exact h.extend [_] fun _ => .letter negated x p
  | connective op p => exact h.extend [_] fun _ => .connective op p
  | closing q => exact .pending q .nil h
  | opening negated p =>
    cases h with
    | matched h => exact .unclosed negated p .nil
    | unclosed negated' p' h => exact .unclosed negated p .nil
    | @pending ts us l after outer unclosed q h hr =>
      -- the group closes at `q`, and what goes on after it is described by `hr`
      have := hr.extend (.opening negated p :: (ts ++ [.closing q])) fun ts' h' => by
        simpa using Matched.group negated p q h h'
      simpa [Nesting.prepend] using this

theorem describes_ofTokens (ts : List Token) : Describes (ofTokens ts) ts := by
  induction ts with
  | nil => exact .matched .nil
  | cons t ts ih => exact ih.prepend t

/-- Where no parenthesis is at fault, all of them match. -/
theorem matched_of_fault? {ts : List Token} (h : (ofTokens ts).fault? = none) :
    Matched ts (ofTokens ts).current := by
  have hd := describes_ofTokens ts
  generalize ofTokens ts = n at h hd
  cases hd with
  | matched h => exact h
  | unclosed => cases h
  | pending => cases h

end Nesting

end TruthTables
