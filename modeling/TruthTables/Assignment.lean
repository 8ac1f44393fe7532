import TruthTables.Formula

/-!
# Assignments

An assignment gives truth values to some of the variables. Its entries are kept in ascending order
of their variables, so that two assignments are equal when they hold the same values.
`Assignment.restrict` keeps the entries of some of the variables.

The rows of a truth table are all assignments of a list of variables, from all true to all false,
the last variable changing fastest (`Assignment.enumerate`). Row `k` reads the binary digits of `k`,
one for each variable, with a clear digit for true: `Assignment.ofRow`.
-/

set_option autoImplicit false

namespace TruthTables

structure Assignment where
  entries : List (Variable × Bool)
  sorted : entries.Pairwise fun p q => p.1 < q.1
deriving DecidableEq

namespace Assignment

instance : Hashable Assignment := ⟨fun a => hash a.entries⟩

def empty : Assignment := ⟨[], .nil⟩

instance : Inhabited Assignment := ⟨empty⟩

/-- The value given to a variable, if there is one. -/
def get? (a : Assignment) (x : Variable) : Option Bool := a.entries.lookup x

/-- The variables that have a value, in ascending order. -/
def vars (a : Assignment) : List Variable := a.entries.map (·.1)

/-! ## Insertion -/

/-- Puts an entry in its place among ascending entries, over one of the same variable. -/
def insertEntry (x : Variable) (b : Bool) : List (Variable × Bool) → List (Variable × Bool)
  | [] => [(x, b)]
  | (y, c) :: rest =>
    if x < y then (x, b) :: (y, c) :: rest
    else if x = y then (x, b) :: rest
    else (y, c) :: insertEntry x b rest

theorem mem_insertEntry {x : Variable} {b : Bool} {es : List (Variable × Bool)}
    {p : Variable × Bool} (h : p ∈ insertEntry x b es) : p = (x, b) ∨ p ∈ es := by
  induction es with
  | nil => simpa [insertEntry] using h
  | cons e rest ih => grind [insertEntry]

theorem pairwise_insertEntry {x : Variable} {b : Bool} {es : List (Variable × Bool)}
    (h : es.Pairwise fun p q => p.1 < q.1) :
    (insertEntry x b es).Pairwise fun p q => p.1 < q.1 := by
  induction es with
  | nil => simp [insertEntry]
  | cons e rest ih =>
    obtain ⟨y, c⟩ := e
    rw [List.pairwise_cons] at h
    rw [insertEntry]
    split
    · next hxy =>
      refine List.pairwise_cons.2 ⟨fun p hp => ?_, List.pairwise_cons.2 h⟩
      rcases List.mem_cons.1 hp with rfl | hp
      · exact hxy
      · exact Variable.lt_trans hxy (h.1 p hp)
    · split
      · next heq => exact List.pairwise_cons.2 ⟨fun p hp => heq ▸ h.1 p hp, h.2⟩
      · next hxy hne =>
        refine List.pairwise_cons.2 ⟨fun p hp => ?_, ih h.2⟩
        rcases mem_insertEntry hp with rfl | hp
        · rcases Variable.lt_or_eq_or_gt x y with h' | h' | h'
          · exact absurd h' hxy
          · exact absurd h' hne
          · exact h'
        · exact h.1 p hp

/-- Sets the value of a variable, whether or not it had one. -/
def insert (a : Assignment) (x : Variable) (b : Bool) : Assignment :=
  ⟨insertEntry x b a.entries, pairwise_insertEntry a.sorted⟩

/-- Inserts the pairs in order, so that a later one replaces an earlier one. -/
def ofPairs (pairs : List (Variable × Bool)) : Assignment :=
  pairs.foldl (fun a p => a.insert p.1 p.2) empty

/-- The assignment of a single variable. -/
def single (x : Variable) (b : Bool) : Assignment := ⟨[(x, b)], List.pairwise_singleton _ _⟩

/-! ## Removal -/

/-- Keeps the values of the variables in `p`. -/
def restrict (a : Assignment) (p : Variable → Bool) : Assignment :=
  ⟨a.entries.filter fun e => p e.1, a.sorted.filter _⟩

def erase (a : Assignment) (x : Variable) : Assignment := a.restrict (· != x)

/-! ## Look-up -/

theorem lookup_cons_ite (x y : Variable) (c : Bool) (rest : List (Variable × Bool)) :
    List.lookup x ((y, c) :: rest) = if x = y then some c else rest.lookup x := by
  rw [List.lookup_cons]
  by_cases h : x = y
  · simp [h]
  · simp [h, beq_eq_false_iff_ne.2 h]

theorem lookup_insertEntry (x y : Variable) (b : Bool) (es : List (Variable × Bool)) :
    (insertEntry x b es).lookup y = if y = x then some b else es.lookup y := by
  induction es with
  | nil => simp [insertEntry, lookup_cons_ite]
  | cons e rest ih =>
    obtain ⟨z, c⟩ := e
    rw [insertEntry]
    split
    · rw [lookup_cons_ite]
    · split
      · next heq => subst heq; simp only [lookup_cons_ite]; split <;> rfl
      · next hne =>
        simp only [lookup_cons_ite, ih]
        by_cases h : y = z
        · subst h
          simp [Ne.symm hne]
        · simp [h]

@[simp] theorem get?_insert (a : Assignment) (x y : Variable) (b : Bool) :
    (a.insert x b).get? y = if y = x then some b else a.get? y :=
  lookup_insertEntry x y b a.entries

theorem lookup_eq_some_iff {es : List (Variable × Bool)} (h : es.Pairwise fun p q => p.1 < q.1)
    {x : Variable} {b : Bool} : es.lookup x = some b ↔ (x, b) ∈ es := by
  induction es with
  | nil => simp
  | cons e rest ih =>
    obtain ⟨y, c⟩ := e
    rw [List.pairwise_cons] at h
    by_cases hxy : x = y
    · subst hxy
      have : ∀ d, (x, d) ∉ rest := fun d hd => Variable.lt_irrefl x (h.1 _ hd)
      simp [this, eq_comm]
    · simp [lookup_cons_ite, hxy, ih h.2]

theorem get?_eq_some_iff {a : Assignment} {x : Variable} {b : Bool} :
    a.get? x = some b ↔ (x, b) ∈ a.entries := lookup_eq_some_iff a.sorted

@[simp] theorem get?_restrict (a : Assignment) (p : Variable → Bool) (x : Variable) :
    (a.restrict p).get? x = if p x then a.get? x else none := by
  apply Option.ext
  intro b
  by_cases h : p x <;> simp [get?_eq_some_iff, restrict, h]

@[simp] theorem get?_empty (x : Variable) : empty.get? x = none := rfl

@[simp] theorem get?_single (x y : Variable) (b : Bool) :
    (single x b).get? y = if y = x then some b else none := by
  simp [single, get?, lookup_cons_ite]

theorem mem_vars {a : Assignment} {x : Variable} :
    x ∈ a.vars ↔ (a.get? x).isSome = true := by
  simp [vars, Option.isSome_iff_exists, get?_eq_some_iff]

theorem pairwise_vars (a : Assignment) : a.vars.Pairwise (· < ·) :=
  List.pairwise_map.2 a.sorted

/-! ## Enumeration -/

/-- The pairs of row `k`: with `n` variables in all, the one at index `i` has the digit
`n - 1 - i`. -/
def rowPairs (k : Nat) : List Variable → List (Variable × Bool)
  | [] => []
  | x :: rest => (x, !k.testBit rest.length) :: rowPairs k rest

/-- Row `k` of the enumeration; a variable that is listed twice keeps its last value. -/
def ofRow (xs : List Variable) (k : Nat) : Assignment := ofPairs (rowPairs k xs)

/-- How many assignments `n` variables have: `2 ^ n`. -/
def rowCount (n : Nat) : Nat := Nat.pow 2 n

/-- All rows in order. -/
def enumerate (xs : List Variable) : List Assignment :=
  (List.range (rowCount xs.length)).map (ofRow xs)

@[simp] theorem length_enumerate (xs : List Variable) :
    (enumerate xs).length = rowCount xs.length := by
  simp [enumerate]

end Assignment

end TruthTables
