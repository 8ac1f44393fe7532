import Mathlib.Data.Finset.Dedup
import Mathlib.Data.Finset.Lattice.Lemmas
import TruthTables.Proofs.Brackets
import TruthTables.Proofs.Printing
import TruthTables.Proofs.Slots
import TruthTables.Proofs.Spacing

/-!
# Reading ranges of the text in place

`InPlace.readRange` reads canonical text without tokens and levels: it walks over the positions of a
range and calls itself for each group, on the range between the parentheses. It counts open
parentheses by itself, looks back for a negation, hands on a set of the variables that it meets, and
there is room for a number of calls only. Whatever it relies on is checked (`InPlace.Breach`).

No check ever fails after a scan, and what is read is what `Nesting.read` reads, errors included,
with the variables of all tokens: `InPlace.readRange_of_scan`. The walk over matched tokens folds
their level in the slots (`loop_of_matched`); the walk over a group before it is closed only counts
(`loop_of_openAfter?`), so it does not matter there whether parentheses match.
-/

set_option autoImplicit false

namespace TruthTables

open Grammar

/-! ## Places in a text -/

namespace Text

/-- From `p` on, the text goes on with these characters. -/
def At (text : List Char) : Nat → List Char → Prop
  | _, [] => True
  | p, c :: cs => text[p]? = some c ∧ At text (p + 1) cs

variable {text as bs : List Char} {p : Nat}

theorem at_append : At text p (as ++ bs) ↔ At text p as ∧ At text (p + as.length) bs := by
  induction as generalizing p with
  | nil => simp [At]
  | cons c as ih =>
    rw [List.cons_append, At, At, ih, List.length_cons, Nat.add_comm as.length, ← Nat.add_assoc,
      and_assoc]

theorem at_length (before cs : List Char) : At (before ++ cs) before.length cs := by
  induction cs generalizing before with
  | nil => trivial
  | cons c cs ih =>
    refine ⟨by simp, ?_⟩
    have hrest := ih (before ++ [c])
    simpa using hrest

theorem at_self (cs : List Char) : At cs 0 cs := at_length [] cs

end Text

open Text (At)

namespace InPlace

/-! ## The reader -/

/-- What calls make of ranges: from the start and the end of one and the variables that were met
before, the operand that it amounts to and the variables that have been met then. -/
abbrev Call := Nat → Nat → Finset Variable → Except Halt (Operand × Finset Variable)

/-- How far a range has been read. -/
structure Cursor where
  slots : Slots := {}
  /-- How many parentheses are open. -/
  depth : Nat := 0
  /-- Where the group begins whose parenthesis is the outermost open one. -/
  groupStart : Nat
  /-- The variables that have been met, in this range or before. -/
  seen : Finset Variable
deriving DecidableEq

section
variable (text : List Char)

/-- Whether there is a negation directly before a position. -/
def negatedAt (position : Nat) : Except Halt Bool :=
  if 0 < position then do
    let before ← minus position 1
    return text[before]? == some '~'
  else return false

/-- Takes a variable or a connective. -/
def takeSign (c : Cursor) (ch : Char) (position : Nat) : Except Halt Cursor :=
  match Connective.ofSign? ch, Variable.ofChar? ch with
  | some op, _ => do
    let slots ← c.slots.connect op position
    return { c with slots }
  | none, some x => do
    let negated ← negatedAt text position
    let slots ← c.slots.push (.letter negated x) position
    return { c with slots, seen := insert x c.seen }
  | none, none => .error (.broken (.foreign ch position))

variable (call : Call)

/-- Takes the group that ends before `position`. -/
def takeGroup (c : Cursor) (position : Nat) : Except Halt Cursor := do
  let opening ← minus c.groupStart 1
  let (group, seen) ← call c.groupStart position c.seen
  let negated ← negatedAt text opening
  let slots ← c.slots.push (group.negateIf negated) opening
  return { c with slots, seen }

/-- Reads the character at `position`; `call` reads the range of a group. -/
def step (c : Cursor) (position : Nat) : Except Halt Cursor :=
  match text[position]? with
  | none => .error (.broken (.outside position))
  | some ch =>
    if ch = '(' then
      let groupStart := if c.depth = 0 then position + 1 else c.groupStart
      .ok { c with depth := c.depth + 1, groupStart }
    else if ch = ')' then
      if c.depth = 0 then .error (.refused (.unbalancedParentheses position))
      else do
        let depth ← minus c.depth 1
        if depth = 0 then takeGroup text call { c with depth } position
        else return { c with depth }
    else if 0 < c.depth then .ok c
    else if ch = '~' ∨ Text.isAsciiWhiteSpace ch = true then .ok c
    else takeSign text c ch position

/-- Reads `count` characters from `start` on. -/
def loop (start count : Nat) (c : Cursor) : Except Halt Cursor :=
  (List.range' start count).foldlM (step text call) c

/-- What is read of a range when its end is reached. -/
def close (c : Cursor) : Except Halt (Operand × Finset Variable) :=
  if c.depth = 0 then do
    let o ← c.slots.finish
    return (o, c.seen)
  else do
    let opening ← minus c.groupStart 1
    .error (.refused (.unbalancedParentheses opening))

end

/-- Reads the range of the text from `start` to `stop`, with room for `calls` calls one inside
another, this one included. The variables of the range are added to those that were met before. -/
def readRange (text : List Char) : (calls : Nat) → Call
  | 0, _, _, _ => .error (.broken .calls)
  | calls + 1, start, stop, seen =>
    loop text (readRange text calls) start (stop - start) { groupStart := start, seen } >>= close

/-- The variables of a set in ascending order. -/
def ascending (s : Finset Variable) : List Variable := Variable.all.filter fun x => x ∈ s

/-! ## Single characters -/

section
variable {text : List Char} {p q : Nat}

/-- No negation stands directly before the position. -/
def Clear (text : List Char) (p : Nat) : Prop := ∀ q, q + 1 = p → text[q]? ≠ some '~'

theorem clear_zero : Clear text 0 := fun q h => absurd h (Nat.succ_ne_zero q)

theorem clear_succ {c : Char} (h : text[q]? = some c) (hc : c ≠ '~') : Clear text (q + 1) := by
  intro q' hq' h'
  obtain rfl : q' = q := Nat.succ.inj hq'
  rw [h] at h'
  exact hc (Option.some.inj h')

theorem clear_of_blank {as : List Char} (hb : Blank as) (hat : At text p as)
    (hclear : Clear text p) : Clear text (p + as.length) := by
  induction as generalizing p with
  | nil => exact hclear
  | cons c as ih =>
    have hc : c ≠ '~' := by
      rintro rfl
      exact absurd (hb '~' List.mem_cons_self) (by decide)
    have hrest := ih (fun d hd => hb d (List.mem_cons_of_mem c hd)) hat.2 (clear_succ hat.1 hc)
    rwa [List.length_cons, Nat.add_comm as.length, ← Nat.add_assoc]

theorem negatedAt_of_clear (h : Clear text p) : negatedAt text p = .ok false := by
  cases p with
  | zero => rfl
  | succ q => simp [negatedAt, minus, h q rfl, bind, Except.bind, pure, Except.pure]

theorem negatedAt_succ (h : text[q]? = some '~') : negatedAt text (q + 1) = .ok true := by
  simp [negatedAt, minus, h, bind, Except.bind, pure, Except.pure]

/-- Looking back finds the negation of a token. -/
theorem negatedAt_of_negation {as : List Char} {negated : Bool} (hb : Blank as)
    (hat : At text p (as ++ negation negated)) (hclear : Clear text p) :
    negatedAt text (p + (as ++ negation negated).length) = .ok negated := by
  obtain ⟨has, hn⟩ := Text.at_append.1 hat
  have hblank := clear_of_blank hb has hclear
  rw [List.length_append, ← Nat.add_assoc]
  cases negated with
  | false => exact negatedAt_of_clear hblank
  | true => exact negatedAt_succ hn.1

variable {call : Call} {c : Cursor} {seen : Finset Variable}

theorem step_opening (h : text[p]? = some '(') (s : Slots) (g : Nat) :
    step text call ⟨s, 0, g, seen⟩ p = .ok ⟨s, 1, p + 1, seen⟩ := by
  simp [step, h]

theorem step_closing (h : text[p]? = some ')') (s : Slots) (g : Nat) :
    step text call ⟨s, 1, g, seen⟩ p = takeGroup text call ⟨s, 0, g, seen⟩ p := by
  simp [step, h, minus]
  rfl

theorem step_closing_zero (h : text[p]? = some ')') (s : Slots) (g : Nat) :
    step text call ⟨s, 0, g, seen⟩ p = .error (.refused (.unbalancedParentheses p)) := by
  simp [step, h]

theorem step_letter {x : Variable} {negated : Bool} (h : text[p]? = some x.letter)
    (hn : negatedAt text p = .ok negated) (s : Slots) (g : Nat) :
    step text call ⟨s, 0, g, seen⟩ p =
      s.push (.letter negated x) p >>= fun slots => pure ⟨slots, 0, g, insert x seen⟩ := by
  have ho : x.letter ≠ '(' := x.letter_ne (by decide)
  have hc : x.letter ≠ ')' := x.letter_ne (by decide)
  have ht : x.letter ≠ '~' := x.letter_ne (by decide)
  simp [step, h, ho, hc, ht, x.isAsciiWhiteSpace_letter, takeSign, x.ofSign?_letter,
    x.ofChar?_letter, hn]
  rfl

theorem step_connective {op : Connective} (h : text[p]? = some op.sign) (s : Slots) (g : Nat) :
    step text call ⟨s, 0, g, seen⟩ p =
      s.connect op p >>= fun slots => pure ⟨slots, 0, g, seen⟩ := by
  have hop : op.sign ≠ '(' ∧ op.sign ≠ ')' ∧ op.sign ≠ '~' ∧
      Text.isAsciiWhiteSpace op.sign = false := by
    cases op <;> decide
  simp [step, h, hop, takeSign]

theorem takeGroup_eq {negated : Bool} (hn : negatedAt text q = .ok negated) (s : Slots) :
    takeGroup text call ⟨s, 0, q + 1, seen⟩ p =
      call (q + 1) p seen >>= fun r =>
        s.push (r.1.negateIf negated) q >>= fun slots => pure ⟨slots, 0, q + 1, r.2⟩ := by
  have hopening : minus (q + 1) 1 = .ok q := by simp [minus]
  simp only [takeGroup, hopening, hn, bind, Except.bind]

/-! ## Walking -/

theorem loop_succ (n : Nat) :
    loop text call p (n + 1) c = step text call c p >>= loop text call (p + 1) n := by
  rw [loop, List.range'_succ, List.foldlM_cons]
  rfl

theorem loop_add (m n : Nat) :
    loop text call p (m + n) c = loop text call p m c >>= loop text call (p + m) n := by
  rw [loop, ← List.range'_append_1, List.foldlM_append]
  rfl

/-- White space and negations are passed by. -/
theorem loop_of_quiet {cs : List Char} (hat : At text p cs)
    (h : ∀ ch ∈ cs, ch = '~' ∨ Text.isAsciiWhiteSpace ch = true) (hc : c.depth = 0) :
    loop text call p cs.length c = .ok c := by
  induction cs generalizing p with
  | nil => rfl
  | cons ch cs ih =>
    have hch := h ch List.mem_cons_self
    have hne : ch ≠ '(' ∧ ch ≠ ')' := by
      constructor <;> rintro rfl <;> exact absurd hch (by decide)
    have hstep : step text call c p = .ok c := by
      simp [step, hat.1, hne, hc, hch]
    rw [List.length_cons, loop_succ, hstep]
    exact ih hat.2 fun d hd => h d (List.mem_cons_of_mem ch hd)

/-- Inside a group, the walk only counts. -/
theorem loop_of_openAfter? {cs : List Char} {k k' : Nat} (hk : openAfter? k cs = some k')
    (hat : At text p cs) (s : Slots) (g : Nat) :
    loop text call p cs.length ⟨s, k + 1, g, seen⟩ = .ok ⟨s, k' + 1, g, seen⟩ := by
  induction cs generalizing p k with
  | nil =>
    cases hk
    rfl
  | cons ch cs ih =>
    rw [List.length_cons, loop_succ]
    by_cases ho : ch = '('
    · subst ho
      have hstep : step text call ⟨s, k + 1, g, seen⟩ p = .ok ⟨s, k + 1 + 1, g, seen⟩ := by
        simp [step, hat.1]
      rw [hstep]
      exact ih hk hat.2
    · by_cases hc : ch = ')'
      · subst hc
        cases k with
        | zero => cases hk
        | succ k =>
          have hstep : step text call ⟨s, k + 1 + 1, g, seen⟩ p = .ok ⟨s, k + 1, g, seen⟩ := by
            simp [step, hat.1, minus, bind, Except.bind, pure, Except.pure]
          rw [hstep]
          exact ih hk hat.2
      · have hstep : step text call ⟨s, k + 1, g, seen⟩ p = .ok ⟨s, k + 1, g, seen⟩ := by
          simp [step, hat.1, ho, hc]
        rw [openAfter?_other ho hc] at hk
        rw [hstep]
        exact ih hk hat.2

/-- The walk over a group passes by to its parenthesis, and only then the group is read, by a call
of its own. -/
theorem loop_group (call : Call) {negated : Bool} {inside rest : List Char}
    (hopening : text[p]? = some '(') (hn : negatedAt text p = .ok negated) (hb : Balanced inside)
    (hat : At text (p + 1) (inside ++ ([')'] ++ rest))) (s : Slots) (g : Nat)
    (seen : Finset Variable) :
    step text call ⟨s, 0, g, seen⟩ p >>=
        loop text call (p + 1) (inside ++ ([')'] ++ rest)).length =
      (call (p + 1) (p + 1 + inside.length) seen >>= fun r =>
        s.push (r.1.negateIf negated) p >>= fun slots => pure ⟨slots, 0, p + 1, r.2⟩) >>=
          loop text call (p + 1 + inside.length + 1) rest.length := by
  obtain ⟨hinside, hclosing, -⟩ := Text.at_append.1 hat
  have hpass : loop text call (p + 1) inside.length ⟨s, 1, p + 1, seen⟩ =
      .ok ⟨s, 1, p + 1, seen⟩ :=
    loop_of_openAfter? (hb.openAfter? 0) hinside s (p + 1)
  have hrest : ([')'] ++ rest).length = rest.length + 1 := rfl
  rw [step_opening hopening, ← takeGroup_eq hn s, ← step_closing hclosing, ← loop_succ, ← hrest]
  show loop text call (p + 1) _ _ = _
  rw [List.length_append, loop_add, hpass]
  rfl

/-- The walk over white space and the negation of a token, from outside of groups. -/
theorem loop_token (call : Call) (negated : Bool) {as bs : List Char} {ch : Char} (hb : Blank as)
    (hat : At text p (as ++ (negation negated ++ [ch] ++ bs)))
    (hq : q + 1 = p + as.length + (negation negated ++ [ch]).length) :
    text[q]? = some ch ∧ (Clear text p → negatedAt text q = .ok negated) ∧ At text (q + 1) bs ∧
      ∀ s g seen,
        loop text call p (as ++ (negation negated ++ [ch] ++ bs)).length ⟨s, 0, g, seen⟩ =
          step text call ⟨s, 0, g, seen⟩ q >>= loop text call (q + 1) bs.length := by
  have htext : as ++ (negation negated ++ [ch] ++ bs) = (as ++ negation negated) ++ ch :: bs := by
    simp
  have hlength : q = p + (as ++ negation negated).length := by
    rw [List.length_append] at hq ⊢
    rw [List.length_singleton] at hq
    omega
  rw [htext, Text.at_append, ← hlength] at hat
  obtain ⟨has, hcharacter, hrest⟩ := hat
  have hquiet : ∀ d ∈ as ++ negation negated, d = '~' ∨ Text.isAsciiWhiteSpace d = true := by
    intro d hd
    rcases List.mem_append.1 hd with hd | hd
    · exact .inr (hb d hd)
    · exact .inl (eq_of_mem_negation hd)
  refine ⟨hcharacter, fun hclear => ?_, hrest, fun s g seen => ?_⟩
  · rw [hlength]
    exact negatedAt_of_negation hb has hclear
  · rw [htext, List.length_append, loop_add, loop_of_quiet has hquiet rfl, ← hlength,
      List.length_cons]
    exact loop_succ bs.length

end

end InPlace

/-! ## Depths and variables -/

/-- How deep the groups of a level are nested. -/
def Level.depth : Level → Nat
  | nil => 0
  | letter _ _ _ rest => rest.depth
  | connective _ _ rest => rest.depth
  | group _ _ body rest => max (body.depth + 1) rest.depth

/-- The variables of a level and of its groups. -/
def Level.letters : Level → Finset Variable
  | nil => ∅
  | letter _ x _ rest => insert x rest.letters
  | connective _ _ rest => rest.letters
  | group _ _ body rest => body.letters ∪ rest.letters

theorem Level.mem_letters {ts : List Token} {l : Level} (hm : Level.Matched ts l) {x : Variable} :
    x ∈ l.letters ↔ ∃ t ∈ ts, t.mentions x = true := by
  induction hm with
  | nil => simp [letters]
  | letter negated y q hm ih => simp [letters, ih, Token.mentions]
  | connective op q hm ih => simp [letters, ih, Token.mentions]
  | group negated q q' hmb hm ihb ih =>
    simp [letters, ihb, ih, Token.mentions, or_and_right, exists_or]

theorem Level.letters_eq_varsOf {ts : List Token} {l : Level} (hm : Level.Matched ts l) :
    l.letters = (Expression.varsOf ts).toFinset := by
  ext x
  simp [mem_letters hm]

namespace Token.Scanned

/-- The text of a level is nested as deep as the level. -/
theorem nests {ts : List Token} {l : Level} (hm : Level.Matched ts l) {p : Nat} {cs : List Char}
    (h : Scanned p cs ts) : Nests l.depth cs := by
  induction hm generalizing p cs with
  | nil => exact .blank h.blank_of_nil
  | letter negated x q hm ih =>
    obtain ⟨blank, rest, hb, rfl, hrest⟩ := h.uncons
    have hnests := (Nests.blank hb).append
      (((Nests.negation negated).append (.letter x)).append (ih hrest))
    simpa [chars, Level.depth] using hnests
  | connective op q hm ih =>
    obtain ⟨blank, rest, hb, rfl, hrest⟩ := h.uncons
    have hnests := (Nests.blank hb).append ((Nests.sign op).append (ih hrest))
    simpa [chars, Level.depth] using hnests
  | @group ts us body l negated q q' hmb hm ihb ih =>
    obtain ⟨blank, rest, hb, rfl, hrest⟩ := h.uncons
    obtain ⟨inside, rest, rfl, hinside, hrest⟩ := hrest.split
    have hnests := (Nests.blank hb).append
      ((Nests.negation negated).append ((ihb hinside).group.append (ih hrest)))
    simpa [chars, Level.depth] using hnests

/-- The outermost level is nested no deeper than the text that it begins. -/
theorem depth_le_deepest {ts : List Token} {p : Nat} {cs : List Char} (h : Scanned p cs ts) :
    (Nesting.ofTokens ts).current.depth ≤ deepest 0 cs := by
  have hbegins : ∃ us as rest, Level.Matched us (Nesting.ofTokens ts).current ∧
      Scanned p as us ∧ cs = as ++ rest := by
    have hd := Nesting.describes_ofTokens ts
    generalize Nesting.ofTokens ts = n at hd
    cases hd with
    | matched hm => exact ⟨ts, cs, [], hm, h, (List.append_nil cs).symm⟩
    | pending q hm hr =>
      obtain ⟨as, bs, rfl, has, -⟩ := h.split
      exact ⟨_, as, _, hm, has, rfl⟩
    | unclosed negated q hm =>
      obtain ⟨as, bs, rfl, has, -⟩ := h.split
      exact ⟨_, as, _, hm, has, rfl⟩
  obtain ⟨us, as, rest, hm, has, rfl⟩ := hbegins
  rw [has.nests hm]
  omega

end Token.Scanned

namespace InPlace

/-! ## Walks over levels -/

section
variable {text : List Char} {p calls : Nat}

/-- Reading goes on in the slots as it goes on in the chain. -/
theorem loop_of_pushed {x : Except ParseError Chain} {rest : Level} {g : Nat}
    {seen seen' : Finset Variable} {k : Cursor → Except Halt Cursor}
    (h : ∀ c, x = .ok c → ∃ g', k ⟨c.slots, 0, g, seen⟩ =
      (lift (rest.fold c)).map fun c => ⟨c.slots, 0, g', seen'⟩) :
    ∃ g', ((lift (x.map Chain.slots) >>= fun slots => pure ⟨slots, 0, g, seen⟩) >>= k) =
      (lift (x.bind rest.fold)).map fun c => ⟨c.slots, 0, g', seen'⟩ := by
  cases x with
  | error e => exact ⟨0, rfl⟩
  | ok c => exact h c rfl

/-- A range is read where the walk over it folds a level. -/
theorem readRange_of_loop {start n g : Nat} {seen seen' : Finset Variable} {l : Level}
    (h : loop text (readRange text calls) start n ⟨Chain.empty.slots, 0, start, seen⟩ =
      (lift (l.fold .empty)).map fun c => ⟨c.slots, 0, g, seen'⟩) :
    readRange text (calls + 1) start (start + n) seen =
      lift ((l.result .empty).map fun o => (o, seen')) := by
  rw [readRange, Nat.add_sub_cancel_left]
  refine (congrArg (· >>= close) h).trans ?_
  rw [Level.result]
  cases hfold : l.fold .empty with
  | error e => rfl
  | ok c =>
    have hfinish := finish_slots (Level.accurate_of_fold hfold trivial)
    rw [lift_map]
    exact congrArg (· >>= fun o => pure (o, seen')) hfinish

/-- The walk over matched tokens folds their level in the slots and meets its variables. -/
theorem loop_of_matched {ts : List Token} {l : Level} (hm : Level.Matched ts l) {cs : List Char}
    (hs : Token.Scanned p cs ts) (hat : At text p cs) (hclear : Clear text p)
    (hdepth : l.depth ≤ calls) {c : Chain} (hc : c.Accurate) (g : Nat) (seen : Finset Variable) :
    ∃ g', loop text (readRange text calls) p cs.length ⟨c.slots, 0, g, seen⟩ =
      (lift (l.fold c)).map fun c => ⟨c.slots, 0, g', seen ∪ l.letters⟩ := by
  induction hm generalizing p calls cs c g seen with
  | nil =>
    refine ⟨g, ?_⟩
    rw [Level.letters, Finset.union_empty]
    exact loop_of_quiet hat (fun d hd => .inr (hs.blank_of_nil d hd)) rfl
  | letter negated x q hm ih =>
    obtain ⟨as, bs, hb, rfl, hrest, hq⟩ := hs.uncons_at
    obtain ⟨hch, hnegated, hat, hloop⟩ := loop_token (readRange text calls) negated hb hat hq
    have hclear' := clear_succ hch (x.letter_ne (by decide))
    have ho := Operand.accurate_letter negated x
    obtain ⟨g', hrest⟩ := loop_of_pushed (x := c.pushOperand q (.letter negated x)) (g := g)
      fun d hd => ih hrest hat hclear' hdepth (hc.pushOperand hd ho) g (insert x seen)
    refine ⟨g', (hloop c.slots g seen).trans ?_⟩
    rw [step_letter hch (hnegated hclear), push_slots c ho, Level.fold_letter, Level.letters,
      ← Finset.insert_union_comm]
    exact hrest
  | connective op q hm ih =>
    obtain ⟨as, bs, hb, rfl, hrest, hq⟩ := hs.uncons_at
    have hop : op.sign ≠ '~' := by cases op <;> decide
    obtain ⟨hch, -, hat, hloop⟩ := loop_token (readRange text calls) false hb hat hq
    obtain ⟨g', hrest⟩ := loop_of_pushed (x := c.pushConnective q op) (g := g)
      fun d hd => ih hrest hat (clear_succ hch hop) hdepth (hc.pushConnective hd) g seen
    refine ⟨g', (hloop c.slots g seen).trans ?_⟩
    rw [step_connective hch, connect_slots hc, Level.fold_connective]
    exact hrest
  | @group ts us body l negated q q' hmb hm ihb ih =>
    obtain ⟨as, bs, hb, rfl, hrest, hq⟩ := hs.uncons_at
    obtain ⟨hopening, hnegated, hat, hloop⟩ := loop_token (readRange text calls) negated hb hat hq
    have hclear' := clear_succ hopening (by decide)
    obtain ⟨inside, rest, rfl, hinside, hrest, hq'⟩ := hrest.split_at
    obtain ⟨hatInside, hclosing, hatRest⟩ := Text.at_append.1 hat
    obtain rfl : q' = q + 1 + inside.length := Nat.succ.inj hq'
    rw [Level.depth] at hdepth
    -- the call for this group leaves room for one less
    obtain ⟨calls, rfl⟩ : ∃ k, calls = k + 1 := ⟨calls - 1, by omega⟩
    have hbodyDepth : body.depth ≤ calls := by omega
    have hrestDepth : l.depth ≤ calls + 1 := by omega
    have hgroup : readRange text (calls + 1) (q + 1) (q + 1 + inside.length) seen =
        lift ((body.result .empty).map fun o => (o, seen ∪ body.letters)) := by
      obtain ⟨g', hbody⟩ :=
        ihb hinside hatInside hclear' hbodyDepth (c := .empty) trivial (q + 1) seen
      exact readRange_of_loop hbody
    have hstep := loop_group (readRange text (calls + 1)) hopening (hnegated hclear)
      (hinside.balanced hmb) hat c.slots g seen
    have hwalk := (hloop c.slots g seen).trans hstep
    rw [Token.position, hgroup] at hwalk
    rw [Level.fold_group, Level.letters, ← Finset.union_assoc]
    cases hbody : body.result .empty with
    | error e =>
      rw [hbody] at hwalk
      exact ⟨0, hwalk⟩
    | ok o =>
      have ho := (Level.accurate_of_result hbody trivial).negateIf negated
      obtain ⟨g', hrest⟩ := loop_of_pushed (x := c.pushOperand q (o.negateIf negated)) (g := q + 1)
        fun d hd => ih hrest hatRest (clear_succ hclosing (by decide)) hrestDepth
          (hc.pushOperand hd ho) (q + 1) (seen ∪ body.letters)
      rw [← push_slots c ho] at hrest
      rw [hbody] at hwalk
      exact ⟨g', hwalk.trans hrest⟩

end

/-! ## Reading whole texts -/

section
variable {text : List Char} {calls : Nat}

/-- A text is read up to where its outermost level breaks off. -/
theorem readRange_of_break {us : List Token} {l : Level} {as : List Char} {n : Nat}
    {e : ParseError} (hm : Level.Matched us l) (hs : Token.Scanned 0 as us) (hat : At text 0 as)
    (hdepth : l.depth ≤ calls)
    (hbreak : ∀ s g seen, loop text (readRange text calls) as.length n ⟨s, 0, g, seen⟩ >>= close =
      .error (.refused e)) (seen : Finset Variable) (f : Operand → Operand × Finset Variable) :
    readRange text (calls + 1) 0 (as.length + n) seen =
      lift (((l.fold .empty).bind fun _ => .error e).map f) := by
  obtain ⟨g, hloop⟩ := loop_of_matched hm hs hat clear_zero hdepth (c := .empty) trivial 0 seen
  rw [readRange, Nat.sub_zero, loop_add, Nat.zero_add]
  refine (congrArg (fun x => (x >>= loop text (readRange text calls) as.length n) >>= close)
    hloop).trans ?_
  cases l.fold .empty with
  | error e' => rfl
  | ok c => exact hbreak c.slots g (seen ∪ l.letters)

theorem readRange_eq_read {ts : List Token} (hs : Token.Scanned 0 text ts)
    (hdepth : (Nesting.ofTokens ts).current.depth ≤ calls) :
    readRange text (calls + 1) 0 text.length ∅ =
      lift ((Nesting.ofTokens ts).read.map fun o => (o, (Expression.varsOf ts).toFinset)) := by
  have hparts : ∀ as bs, text = as ++ bs → At text 0 as ∧ At text as.length bs := by
    rintro as bs h
    rw [← Nat.zero_add as.length, ← Text.at_append, ← h]
    exact Text.at_self text
  have hd := Nesting.describes_ofTokens ts
  generalize hn : Nesting.ofTokens ts = n at hdepth hd
  rw [Nesting.read_eq_bind]
  cases hd with
  | matched hm =>
    obtain ⟨g, hloop⟩ := loop_of_matched hm hs (Text.at_self text) clear_zero hdepth
      (c := .empty) trivial 0 ∅
    have hread := readRange_of_loop hloop
    rwa [Nat.zero_add, Finset.empty_union, Level.letters_eq_varsOf hm] at hread
  | @pending us vs l level outer unclosed q hm hr =>
    obtain ⟨as, bs, htext, has, -, hp⟩ := hs.split_at
    obtain rfl : q = as.length := by simpa [Token.position, Token.chars] using hp
    obtain ⟨hat, hclosing, -⟩ := hparts as (')' :: bs) htext
    rw [congrArg List.length htext, List.length_append]
    refine readRange_of_break hm has hat hdepth (fun s g seen => ?_) ∅ _
    refine (congrArg (· >>= close) (loop_succ bs.length)).trans ?_
    rw [step_closing_zero hclosing]
    rfl
  | @unclosed us vs l negated q hm =>
    obtain ⟨as, bs, htext, has, hbs, hp⟩ := hs.split_at
    have hunclosed := congrArg Nesting.unclosed hn
    have hpending := Nesting.pending_eq_nil_of_fault hm hunclosed hbs.le_position
    have hcount := (hbs.isSome_openAfter? 0).2 (by rw [hpending]; exact Nat.le_refl 0)
    obtain ⟨k, hk⟩ := Option.isSome_iff_exists.1 hcount
    obtain ⟨hat, hrest⟩ := hparts as (negation negated ++ ['('] ++ bs) htext
    rw [Nat.zero_add] at hp
    obtain ⟨hopening, -, hatRest, hloop⟩ :=
      loop_token (readRange text calls) negated Blank.nil hrest hp
    rw [congrArg List.length htext, List.length_append]
    refine readRange_of_break hm has hat hdepth (fun s g seen => ?_) ∅ _
    refine (congrArg (· >>= close) (hloop s g seen)).trans ?_
    rw [step_opening hopening]
    refine (congrArg (· >>= close) (loop_of_openAfter? hk hatRest s (q + 1))).trans ?_
    rfl

end

theorem ascending_varsOf (ts : List Token) :
    ascending (Expression.varsOf ts).toFinset = Expression.varsOf ts := by
  refine List.filter_congr fun x _ => ?_
  rw [Bool.eq_iff_iff, decide_eq_true_iff, List.mem_toFinset, Expression.mem_varsOf,
    List.any_eq_true]

/-- **Reading in place keeps its promises**: after a scan, reading the whole range from no variables
on gives what `Expression.ofCanonical` gives, errors and variables included, and breaks no promise
on the way, whether it ends in an error or not: calls are nested at most `maxNesting` deep below the
first, every operand that is pushed or made by applying a connective carries its own height, which
is at most `maxNesting`, no slot is ever filled before the one to its left, every character belongs
to a token, and no difference is below zero. Places in the text are bytes, and the groups themselves
are nested no deeper than the calls. -/
theorem readRange_of_scan {text : List Char} {ts : List Token}
    (h : Token.scan 0 0 false text = .ok ts) :
    let result := readRange text (maxNesting + 1) 0 text.length ∅
    (∀ c ∈ text, c.utf8Size = 1) ∧ (Nesting.ofTokens ts).current.depth ≤ maxNesting ∧
    result = lift ((Nesting.ofTokens ts).read.map fun o =>
      (o, (Expression.varsOf ts).toFinset)) ∧
    (Text.trim text ≠ [] → result.map (fun (o, seen) => ⟨o.formula, ascending seen⟩) =
      lift (Expression.ofCanonical text)) ∧
    (∀ o seen, result = .ok (o, seen) → o.Accurate) ∧
    ∀ b, result ≠ .error (.broken b) := by
  intro result
  obtain ⟨hs, hdeepest⟩ := Token.scanned_of_scan h (Nat.zero_le maxNesting)
  have hdepth := Nat.le_trans hs.depth_le_deepest hdeepest
  have hresult : result = lift ((Nesting.ofTokens ts).read.map fun o =>
      (o, (Expression.varsOf ts).toFinset)) := readRange_eq_read hs hdepth
  rw [hresult]
  refine ⟨hs.utf8Size_of_mem, hdepth, rfl, fun htrim => ?_, fun o seen ho => ?_, fun b hb => ?_⟩
  · simp only [Expression.ofCanonical, if_neg htrim, h]
    cases (Nesting.ofTokens ts).read with
    | error e => rfl
    | ok o => exact congrArg (fun xs => Except.ok (Expression.mk o.formula xs)) (ascending_varsOf ts)
  · cases hread : (Nesting.ofTokens ts).read with
    | error e => rw [hread] at ho; cases ho
    | ok o' =>
      have hmatched := Nesting.matched_of_read hread
      rw [hread] at ho
      cases ho
      rw [Nesting.read_of_matched hmatched] at hread
      exact Level.accurate_of_result hread trivial
  · cases hread : (Nesting.ofTokens ts).read <;> rw [hread] at hb <;> cases hb

/-- Reading the two groups of `~(a ^ (b v c))` takes room for three calls; there is more. -/
theorem readRange_nested_groups :
    let text := "~(a ^ (b v c))".toList
    let xs : List Variable := [⟨'a', rfl⟩, ⟨'b', rfl⟩, ⟨'c', rfl⟩]
    (∃ o seen, readRange text (maxNesting + 1) 0 text.length ∅ = .ok (o, seen) ∧ o.Accurate ∧
      o.height = 3 ∧ ascending seen = xs) ∧
      readRange text 3 0 text.length ∅ = readRange text (maxNesting + 1) 0 text.length ∅ ∧
      readRange text 2 0 text.length ∅ = .error (.broken .calls) := by
  intro text xs
  have hscan : Token.scan 0 0 false text = .ok [.opening true 1, .letter false ⟨'a', rfl⟩ 2,
      .connective .and 4, .opening false 6, .letter false ⟨'b', rfl⟩ 7, .connective .or 9,
      .letter false ⟨'c', rfl⟩ 11, .closing 12, .closing 13] := by rfl
  obtain ⟨-, -, hread, -, haccurate, -⟩ := readRange_of_scan hscan
  have hscanned := (Token.scanned_of_scan hscan (Nat.zero_le maxNesting)).1
  have hthree : readRange text 3 0 text.length ∅ = _ := readRange_eq_read hscanned (by decide)
  exact ⟨⟨_, _, hread, haccurate _ _ hread, rfl, ascending_varsOf _⟩, hthree.trans hread.symm, rfl⟩

example : let text := "~(a ^ ((b) v".toList
    readRange text (maxNesting + 1) 0 text.length ∅ =
      .error (.refused (.unbalancedParentheses 1)) :=
  rfl

end InPlace

end TruthTables
