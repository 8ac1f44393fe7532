import Mathlib.Algebra.BigOperators.Fin
import Mathlib.Data.Nat.PSub
import TruthTables.Proofs.Enumeration

/-!
# The order of the rows

A row's number adds up a power of two for each variable that is false
(`Assignment.rowNumber_eq_sum`), and a smaller number comes before a larger one in the
lexicographic order of the values, true before false (`Assignment.lex_rowPairs`). Neither leaves a
machine word: `Assignment.wordRows?` enumerates in words of 64 bits and gives up where a shift or a
subtraction overflows, which it does for 64 variables and more only (`Assignment.wordRows?_eq`).
-/

set_option autoImplicit false

namespace TruthTables.Assignment

variable {x : Variable} {xs : List Variable} {a : Assignment} {k k' : Nat}

/-! ## Row numbers as sums -/

theorem rowNumber_eq_sum (v : Variable → Bool) (xs : List Variable) :
    rowNumber v xs = ∑ i : Fin xs.length with v xs[i] = false, 2 ^ (xs.length - 1 - i) := by
  rw [Finset.sum_filter]
  induction xs with
  | nil => rfl
  | cons x rest ih =>
    have htail (i : Fin rest.length) : rest.length - 1 - i = rest.length - i.succ := by
      rw [Fin.val_succ]
      omega
    let power (i : Fin (rest.length + 1)) : Nat :=
      if v (x :: rest)[i] = false then 2 ^ (rest.length - i) else 0
    have hhead : (if v x then 0 else rowCount rest.length) = power 0 := by
      show _ = if v x = false then 2 ^ rest.length else 0
      cases v x <;> rfl
    rw [rowNumber, ih, hhead]
    simp only [htail]
    exact (Fin.sum_univ_succ power).symm

/-! ## Lexicographic order -/

/-- True comes before false. -/
def TrueFirst (p q : Bool) : Prop := p = true ∧ q = false

/-- The first digit that differs is clear in the smaller number. -/
theorem lex_rowPairs (h : k % 2 ^ xs.length < k' % 2 ^ xs.length) :
    List.Lex TrueFirst ((rowPairs k xs).map (·.2)) ((rowPairs k' xs).map (·.2)) := by
  induction xs with
  | nil => simp [Nat.mod_one] at h
  | cons x rest ih =>
    have hk := Nat.mod_lt k (Nat.two_pow_pos rest.length)
    have hk' := Nat.mod_lt k' (Nat.two_pow_pos rest.length)
    rw [List.length_cons, Nat.mod_pow_succ, Nat.mod_pow_succ] at h
    simp only [rowPairs, List.map_cons, Nat.testBit_eq_decide_div_mod_eq]
    -- Either the highest digits agree and the rest decides, or they decide.
    rcases Nat.mod_two_eq_zero_or_one (k / 2 ^ rest.length) with hd | hd <;>
      rcases Nat.mod_two_eq_zero_or_one (k' / 2 ^ rest.length) with hd' | hd' <;>
      rw [hd, hd'] at h ⊢
    · exact .cons (ih (by omega))
    · exact .rel ⟨rfl, rfl⟩
    · omega
    · exact .cons (ih (by omega))

theorem pairwise_lex_enumerate (h : xs.Nodup) :
    (enumerate xs).Pairwise fun a b =>
      List.Lex TrueFirst (xs.map a.valuation) (xs.map b.valuation) := by
  have hvalues (k : Nat) : xs.map (ofRow xs k).valuation = (rowPairs k xs).map (·.2) := by
    rw [rowPairs_eq_map h, List.map_map]
    rfl
  refine List.pairwise_map.2 (List.pairwise_lt_range.imp_of_mem fun {k k'} hk hk' hlt => ?_)
  rw [hvalues, hvalues]
  apply lex_rowPairs
  have hk : k < 2 ^ xs.length := List.mem_range.1 hk
  have hk' : k' < 2 ^ xs.length := List.mem_range.1 hk'
  rwa [Nat.mod_eq_of_lt hk, Nat.mod_eq_of_lt hk']

/-! ## Machine words -/

/-- A shift by as many bits as the word has, or more, overflows. -/
def shiftLeft? (w : UInt64) (n : Nat) : Option UInt64 :=
  if n < 64 then some (w <<< UInt64.ofNat n) else none

/-- So does a shift to the right. -/
def shiftRight? (w : UInt64) (n : Nat) : Option UInt64 :=
  if n < 64 then some (w >>> UInt64.ofNat n) else none

/-- The pairs of row `w` from the variable at index `i` on, out of `n` variables. Both subtractions
of `n - i - 1` may underflow, and the shift by the result may overflow. -/
def wordPairs? (n : Nat) (w : UInt64) (i : Nat) : List Variable → Option (List (Variable × Bool))
  | [] => some []
  | x :: rest => do
    let power ← (n.psub' i).bind (Nat.psub' · 1)
    let digits ← shiftRight? w power
    let pairs ← wordPairs? n w (i + 1) rest
    return (x, digits &&& 1 == 0) :: pairs

/-- All rows, counted in a word. -/
def wordRows? (xs : List Variable) : Option (List Assignment) := do
  let count ← shiftLeft? 1 xs.length
  (List.range count.toNat).mapM fun k => (wordPairs? xs.length (.ofNat k) 0 xs).map ofPairs

theorem shiftRight_and_one {n : Nat} (hk : k < 2 ^ 64) (hn : n < 64) :
    (UInt64.ofNat k >>> UInt64.ofNat n &&& 1 == 0) = !k.testBit n := by
  have hn' : n < 2 ^ 64 := Nat.lt_trans hn (by decide)
  have hword : (UInt64.ofNat k >>> UInt64.ofNat n &&& 1).toNat = 1 &&& k >>> n := by
    rw [UInt64.toNat_and, UInt64.toNat_shiftRight, UInt64.toNat_ofNat_of_lt' hk,
      UInt64.toNat_ofNat_of_lt' hn', Nat.mod_eq_of_lt hn, Nat.and_comm]
    rfl
  rw [Nat.testBit, ← hword, Bool.eq_iff_iff]
  simp [← UInt64.toNat_inj]

theorem wordPairs?_eq {n i : Nat} (hi : i + xs.length = n) (hn : n < 64) (hk : k < 2 ^ 64) :
    wordPairs? n (.ofNat k) i xs = some (rowPairs k xs) := by
  induction xs generalizing i with
  | nil => rfl
  | cons x rest ih =>
    rw [List.length_cons] at hi
    have hlt : rest.length < 64 := by omega
    have hrest := ih (i := i + 1) (by omega)
    have hpower : (n.psub' i).bind (Nat.psub' · 1) = some rest.length := by
      rw [Nat.psub'_eq_psub, Nat.psub_eq_sub (by omega), Option.bind_some, Nat.psub'_eq_psub,
        Nat.psub_eq_sub (by omega), show n - i - 1 = rest.length by omega]
    simp only [wordPairs?, hpower, hrest, shiftRight?, if_pos hlt, Option.bind_eq_bind,
      Option.bind_some, shiftRight_and_one hk hlt]
    rfl

/-- No shift and no subtraction overflows with fewer than 64 variables. -/
theorem wordRows?_eq (xs : List Variable) :
    wordRows? xs = if xs.length < 64 then some (enumerate xs) else none := by
  unfold wordRows? shiftLeft?
  split
  · next h =>
    have hpower : 2 ^ xs.length < 2 ^ 64 := Nat.pow_lt_pow_right Nat.one_lt_two h
    have hlength : xs.length < 2 ^ 64 := Nat.lt_trans h (by decide)
    have hcount : ((1 : UInt64) <<< UInt64.ofNat xs.length).toNat = rowCount xs.length := by
      rw [UInt64.toNat_shiftLeft, UInt64.toNat_ofNat_of_lt' hlength, Nat.mod_eq_of_lt h]
      exact (congrArg (· % 2 ^ 64) (Nat.one_shiftLeft _)).trans (Nat.mod_eq_of_lt hpower)
    rw [Option.bind_eq_bind, Option.bind_some, hcount]
    refine mapM_eq_pure_map fun k hk => ?_
    have hk : k < 2 ^ 64 := Nat.lt_trans (List.mem_range.1 hk) hpower
    rw [wordPairs?_eq (Nat.zero_add _) h hk]
    rfl
  · rfl

/-! ## The enumeration -/

/-- **The enumeration is exhaustive, without repetitions and in order**: the rows of fewer than 64
variables, in any order and with any repetitions, are `2 ^ n` assignments of exactly these
variables, and in row `k` a variable with last place `i` is true when the digit `n - 1 - i` of `k`
is clear. Where no variable is listed twice, each assignment of the variables is the one row whose
number adds up the powers of its false variables, and the rows are in lexicographic order, true
before false. Machine words hold all numbers on the way. -/
theorem enumerate_in_order (h : xs.length < 64) :
    (enumerate xs).length = 2 ^ xs.length ∧
      (∀ (k : Nat) (a : Assignment), (enumerate xs)[k]? = some a →
        (∀ x, x ∈ a.vars ↔ x ∈ xs) ∧
        ∀ i x, xs[i]? = some x → (∀ j, i < j → xs[j]? ≠ some x) →
          a.get? x = some (!k.testBit (xs.length - 1 - i))) ∧
      (xs.Nodup →
        (∀ a : Assignment, (∀ x, x ∈ a.vars ↔ x ∈ xs) → ∀ k, (enumerate xs)[k]? = some a ↔
          k = ∑ i : Fin xs.length with a.get? xs[i] = some false, 2 ^ (xs.length - 1 - i)) ∧
        (enumerate xs).Pairwise fun a b =>
          List.Lex TrueFirst (xs.map a.valuation) (xs.map b.valuation)) ∧
      wordRows? xs = some (enumerate xs) := by
  refine ⟨length_enumerate xs, fun k a hk => ?_, fun hnodup => ⟨fun a ha k => ?_,
    pairwise_lex_enumerate hnodup⟩, (wordRows?_eq xs).trans (if_pos h)⟩
  · obtain ⟨-, rfl⟩ := eq_of_getElem?_enumerate hk
    exact ⟨fun x => mem_vars_ofRow, fun i x hx hlast => get?_ofRow_last hx hlast⟩
  · have hvalue (i : Fin xs.length) : a.valuation xs[i] = false ↔ a.get? xs[i] = some false := by
      rw [get?_of_mem_vars ((ha xs[i]).2 (List.getElem_mem i.isLt)), Option.some.injEq]
    rw [getElem?_enumerate_eq_some_iff hnodup ha, rowNumber_eq_sum]
    simp only [hvalue]

/-- Of `c`, `a` and `b` the first and the last are false in row 5; of `a`, `b` and `a` the last one
counts. -/
theorem getElem?_enumerate_cab :
    let a : Variable := ⟨'a', rfl⟩
    let b : Variable := ⟨'b', rfl⟩
    let c : Variable := ⟨'c', rfl⟩
    [c, a, b].length < 64 ∧
      (enumerate [c, a, b])[5]? = some (ofPairs [(a, true), (b, false), (c, false)]) ∧
      ∀ row, (enumerate [a, b, a])[6]? = some row → row.get? a = some true := by
  intro a b c
  refine ⟨by decide, ?_, fun row hrow => ?_⟩
  · obtain ⟨-, -, hnodup, -⟩ := enumerate_in_order (show [c, a, b].length < 64 by decide)
    have hvars : (ofPairs [(a, true), (b, false), (c, false)]).vars.Perm [c, a, b] := by decide
    exact ((hnodup (by decide)).1 _ (fun _ => hvars.mem_iff) 5).2 (by decide)
  · obtain ⟨-, hvalues, -⟩ := enumerate_in_order (show [a, b, a].length < 64 by decide)
    have hlast (j : Nat) (hj : 2 < j) : [a, b, a][j]? ≠ some a := by
      rw [List.getElem?_eq_none hj]
      exact (Option.some_ne_none a).symm
    rw [(hvalues 6 row hrow).2 2 a rfl hlast]
    decide

end TruthTables.Assignment
