import Mathlib.Data.List.Sort
import TruthTables.Assignment
import TruthTables.Proofs.Evaluation

/-!
# The rows of an enumeration

An assignment is determined by the values that it gives (`Assignment.ext_get?`).

A row has the listed variables and no others (`Assignment.mem_vars_ofRow`), each with the value
that the digit of its last place calls for (`Assignment.get?_ofRow_last`). The other way round,
given values stand in the row `Assignment.rowNumber`. So the rows are all assignments of the listed
variables (`Assignment.mem_enumerate_iff`), and none comes twice when no variable is listed twice
(`Assignment.nodup_enumerate`).
-/

set_option autoImplicit false

namespace TruthTables

/-- Steps that all succeed make a run that succeeds. -/
theorem mapM_eq_pure_map {m : Type → Type} [Monad m] [LawfulMonad m] {α β : Type} {f : α → m β}
    {g : α → β} {ys : List α} (h : ∀ y ∈ ys, f y = pure (g y)) :
    ys.mapM f = pure (ys.map g) := by
  induction ys with
  | nil => rfl
  | cons y ys ih =>
    rw [List.mapM_cons, h y List.mem_cons_self, ih fun z hz => h z (List.mem_cons_of_mem y hz),
      pure_bind, pure_bind, List.map_cons]

/-! ## Ascending variables -/

namespace Variable

theorem nodup_of_pairwise_lt {xs : List Variable} (h : xs.Pairwise (· < ·)) : xs.Nodup := by
  refine h.imp fun {x y} hlt heq => ?_
  exact lt_irrefl y (heq ▸ hlt)

/-- Lists that ascend by their variables are equal if they have the same members. -/
theorem eq_of_mem_iff {α : Type} {key : α → Variable} {as bs : List α}
    (ha : as.Pairwise fun a b => key a < key b) (hb : bs.Pairwise fun a b => key a < key b)
    (h : ∀ a, a ∈ as ↔ a ∈ bs) : as = bs := by
  have hirrefl : Std.Irrefl fun a b => key a < key b := ⟨fun a => lt_irrefl (key a)⟩
  have hantisymm : Std.Antisymm fun a b => key a < key b :=
    ⟨fun a b hab hba => absurd (lt_trans hab hba) (lt_irrefl (key a))⟩
  exact ha.eq_of_mem_iff hb h

end Variable

namespace Assignment

/-- An assignment is determined by the values it gives. -/
theorem ext_get? {a b : Assignment} (h : ∀ x, a.get? x = b.get? x) : a = b := by
  have hentries : a.entries = b.entries :=
    Variable.eq_of_mem_iff a.sorted b.sorted fun ⟨x, v⟩ => by
      rw [← get?_eq_some_iff, ← get?_eq_some_iff, h]
  cases a; cases b; cases hentries; rfl

variable {x : Variable} {xs : List Variable} {pairs : List (Variable × Bool)} {a : Assignment}
  {k k' i : Nat}

/-! ## Pairs inserted in order -/

theorem mem_vars_foldl_insert :
    x ∈ (pairs.foldl (fun a p => a.insert p.1 p.2) a).vars ↔
      x ∈ a.vars ∨ x ∈ pairs.map (·.1) := by
  induction pairs generalizing a with
  | nil => simp
  | cons p rest ih =>
    have hp : x ∈ (a.insert p.1 p.2).vars ↔ x ∈ a.vars ∨ x = p.1 := by
      rw [mem_vars, mem_vars, get?_insert]
      by_cases h : x = p.1 <;> simp [h]
    rw [List.foldl_cons, ih, hp, List.map_cons, List.mem_cons, or_assoc]

/-- Pairs of other variables leave a value as it is. -/
theorem get?_foldl_insert (h : x ∉ pairs.map (·.1)) :
    (pairs.foldl (fun a p => a.insert p.1 p.2) a).get? x = a.get? x := by
  induction pairs generalizing a with
  | nil => rfl
  | cons p rest ih =>
    rw [List.map_cons, List.mem_cons, not_or] at h
    rw [List.foldl_cons, ih h.2, get?_insert, if_neg h.1]

/-- Values that a function gives do not depend on how often a variable is listed. -/
theorem get?_foldl_insert_map (v : Variable → Bool) (hx : x ∈ xs) :
    ((xs.map fun x => (x, v x)).foldl (fun a p => a.insert p.1 p.2) a).get? x = some (v x) := by
  induction xs generalizing a with
  | nil => cases hx
  | cons y rest ih =>
    rw [List.map_cons, List.foldl_cons]
    by_cases hrest : x ∈ rest
    · exact ih hrest
    · obtain rfl : x = y := (List.mem_cons.1 hx).resolve_right hrest
      rw [get?_foldl_insert (by simpa using hrest), get?_insert, if_pos rfl]

/-! ## Rows -/

theorem map_fst_rowPairs (k : Nat) (xs : List Variable) : (rowPairs k xs).map (·.1) = xs := by
  induction xs with
  | nil => rfl
  | cons x rest ih => rw [rowPairs, List.map_cons, ih]

theorem mem_vars_ofRow : x ∈ (ofRow xs k).vars ↔ x ∈ xs := by
  have hempty : x ∉ empty.vars := List.not_mem_nil
  rw [ofRow, ofPairs, mem_vars_foldl_insert, map_fst_rowPairs]
  exact or_iff_right hempty

theorem vars_ofRow (h : xs.Pairwise (· < ·)) (k : Nat) : (ofRow xs k).vars = xs :=
  Variable.eq_of_mem_iff (pairwise_vars _) h fun _ => mem_vars_ofRow

/-- The digit of a variable is counted from the last one, at its last place. -/
theorem get?_foldl_rowPairs (hx : xs[i]? = some x) (hlast : ∀ j, i < j → xs[j]? ≠ some x) :
    ((rowPairs k xs).foldl (fun a p => a.insert p.1 p.2) a).get? x =
      some (!k.testBit (xs.length - 1 - i)) := by
  induction xs generalizing a i with
  | nil => cases hx
  | cons y rest ih =>
    rw [rowPairs, List.foldl_cons]
    cases i with
    | zero =>
      obtain rfl : y = x := Option.some.inj hx
      have hrest : y ∉ (rowPairs k rest).map (·.1) := by
        rw [map_fst_rowPairs, List.mem_iff_getElem?]
        rintro ⟨j, hj⟩
        exact hlast (j + 1) (Nat.succ_pos j) hj
      rw [get?_foldl_insert hrest, get?_insert, if_pos rfl]
      rfl
    | succ i =>
      have hdigit : (y :: rest).length - 1 - (i + 1) = rest.length - 1 - i := by
        rw [List.length_cons]
        omega
      rw [ih hx fun j hj => hlast (j + 1) (Nat.succ_lt_succ hj), hdigit]

theorem get?_ofRow_last (hx : xs[i]? = some x) (hlast : ∀ j, i < j → xs[j]? ≠ some x) :
    (ofRow xs k).get? x = some (!k.testBit (xs.length - 1 - i)) :=
  get?_foldl_rowPairs hx hlast

theorem get?_ofRow_of_nodup (h : xs.Nodup) (k : Nat) (hx : xs[i]? = some x) :
    (ofRow xs k).get? x = some (!k.testBit (xs.length - 1 - i)) := by
  refine get?_ofRow_last hx fun j hij hj => ?_
  obtain ⟨hi, -⟩ := List.getElem?_eq_some_iff.1 hx
  exact Nat.ne_of_lt hij ((List.getElem?_inj hi h).1 (hx.trans hj.symm))

theorem get?_ofRow (h : xs.Pairwise (· < ·)) (k : Nat) (hx : xs[i]? = some x) :
    (ofRow xs k).get? x = some (!k.testBit (xs.length - 1 - i)) :=
  get?_ofRow_of_nodup (Variable.nodup_of_pairwise_lt h) k hx

theorem getElem?_rowPairs (k : Nat) (xs : List Variable) (i : Nat) :
    (rowPairs k xs)[i]? = xs[i]?.map fun x => (x, !k.testBit (xs.length - 1 - i)) := by
  induction xs generalizing i with
  | nil => rfl
  | cons x rest ih =>
    cases i with
    | zero => rfl
    | succ i =>
      have hi : (x :: rest).length - 1 - (i + 1) = rest.length - 1 - i := by
        simp
        omega
      rw [rowPairs, List.getElem?_cons_succ, List.getElem?_cons_succ, ih, hi]

theorem rowPairs_eq_map (h : xs.Nodup) (k : Nat) :
    rowPairs k xs = xs.map fun x => (x, (ofRow xs k).valuation x) := by
  apply List.ext_getElem?
  intro i
  rw [getElem?_rowPairs, List.getElem?_map]
  cases hx : xs[i]? with
  | none => rfl
  | some x =>
    rw [Option.map_some, Option.map_some, valuation, get?_ofRow_of_nodup h k hx, Option.getD_some]

theorem rowCount_pos (n : Nat) : 0 < rowCount n := Nat.pow_pos (by decide)

theorem getElem?_enumerate (h : k < rowCount xs.length) :
    (enumerate xs)[k]? = some (ofRow xs k) := by
  unfold enumerate
  rw [List.getElem?_map, List.getElem?_range h, Option.map_some]

theorem eq_of_getElem?_enumerate (h : (enumerate xs)[k]? = some a) :
    k < rowCount xs.length ∧ ofRow xs k = a := by
  obtain ⟨hk, -⟩ := List.getElem?_eq_some_iff.1 h
  rw [length_enumerate] at hk
  rw [getElem?_enumerate hk, Option.some.injEq] at h
  exact ⟨hk, h⟩

/-! ## Row numbers -/

/-- The number of the row in which the variables have given values: the digit of each variable that
is false is set. -/
def rowNumber (v : Variable → Bool) : List Variable → Nat
  | [] => 0
  | x :: rest => (if v x then 0 else rowCount rest.length) + rowNumber v rest

theorem rowCount_succ (n : Nat) : rowCount (n + 1) = rowCount n + rowCount n := by
  show 2 ^ (n + 1) = 2 ^ n + 2 ^ n
  omega

theorem rowNumber_lt (v : Variable → Bool) (xs : List Variable) :
    rowNumber v xs < rowCount xs.length := by
  induction xs with
  | nil => exact Nat.one_pos
  | cons x rest ih =>
    rw [rowNumber, List.length_cons, rowCount_succ]
    split <;> omega

/-- The digits that a row of the variables reads. -/
theorem rowPairs_eq_iff :
    rowPairs k xs = rowPairs k' xs ↔ ∀ i < xs.length, k.testBit i = k'.testBit i := by
  induction xs with
  | nil => simp [rowPairs]
  | cons x rest ih =>
    simp only [rowPairs, List.cons.injEq, Prod.mk.injEq, true_and, Bool.not_inj_iff, ih,
      List.length_cons]
    constructor
    · rintro ⟨hlast, hrest⟩ i hi
      rcases Nat.lt_or_eq_of_le (Nat.le_of_lt_succ hi) with hi | rfl
      · exact hrest i hi
      · exact hlast
    · intro h
      exact ⟨h _ (Nat.lt_succ_self _), fun i hi => h i (Nat.lt_succ_of_lt hi)⟩

/-- All digits of a row's number are read, so no two rows read the same. -/
theorem eq_of_rowPairs_eq (hk : k < rowCount xs.length) (hk' : k' < rowCount xs.length)
    (h : rowPairs k xs = rowPairs k' xs) : k = k' := by
  apply Nat.eq_of_testBit_eq
  intro i
  by_cases hi : i < xs.length
  · exact rowPairs_eq_iff.1 h i hi
  · have hle := Nat.pow_le_pow_right Nat.two_pos (Nat.le_of_not_lt hi)
    rw [Nat.testBit_lt_two_pow (Nat.lt_of_lt_of_le hk hle),
      Nat.testBit_lt_two_pow (Nat.lt_of_lt_of_le hk' hle)]

theorem rowPairs_rowNumber (v : Variable → Bool) (xs : List Variable) :
    rowPairs (rowNumber v xs) xs = xs.map fun x => (x, v x) := by
  induction xs with
  | nil => rfl
  | cons x rest ih =>
    have hclear : (rowNumber v rest).testBit rest.length = false :=
      Nat.testBit_lt_two_pow (rowNumber_lt v rest)
    rw [rowNumber, rowPairs, List.map_cons]
    cases hv : v x with
    | true => rw [if_pos rfl, Nat.zero_add, hclear, ih, Bool.not_false]
    | false =>
      -- The digit of `x` is set; those of the rest stay as they are.
      have hset : (rowCount rest.length + rowNumber v rest).testBit rest.length = true :=
        (Nat.testBit_two_pow_add_eq _ _).trans (by rw [hclear, Bool.not_false])
      have hlow : rowPairs (rowCount rest.length + rowNumber v rest) rest =
          rowPairs (rowNumber v rest) rest :=
        rowPairs_eq_iff.2 fun i hi => Nat.testBit_two_pow_add_gt hi _
      rw [if_neg Bool.false_ne_true, hset, hlow, ih, Bool.not_true]

theorem get?_ofRow_rowNumber (v : Variable → Bool) (hx : x ∈ xs) :
    (ofRow xs (rowNumber v xs)).get? x = some (v x) := by
  rw [ofRow, rowPairs_rowNumber]
  exact get?_foldl_insert_map v hx

/-! ## Which assignments are rows -/

/-- Any values of the variables are those of some row. -/
theorem exists_mem_enumerate (xs : List Variable) (v : Variable → Bool) :
    ∃ a ∈ enumerate xs, ∀ x ∈ xs, a.get? x = some (v x) :=
  ⟨ofRow xs (rowNumber v xs), List.mem_of_getElem? (getElem?_enumerate (rowNumber_lt v xs)),
    fun _ hx => get?_ofRow_rowNumber v hx⟩

theorem ofRow_rowNumber (h : ∀ x, x ∈ a.vars ↔ x ∈ xs) :
    ofRow xs (rowNumber a.valuation xs) = a := by
  apply ext_get?
  intro x
  by_cases hx : x ∈ xs
  · rw [get?_ofRow_rowNumber _ hx, get?_of_mem_vars ((h x).2 hx)]
  · have hrow : x ∉ (ofRow xs (rowNumber a.valuation xs)).vars := fun hc => hx (mem_vars_ofRow.1 hc)
    have ha : x ∉ a.vars := fun hc => hx ((h x).1 hc)
    rw [mem_vars, Option.not_isSome_iff_eq_none] at hrow ha
    rw [hrow, ha]

theorem mem_enumerate_iff : a ∈ enumerate xs ↔ ∀ x, x ∈ a.vars ↔ x ∈ xs := by
  constructor
  · intro ha x
    obtain ⟨k, -, rfl⟩ := List.mem_map.1 ha
    exact mem_vars_ofRow
  · intro h
    rw [← ofRow_rowNumber h]
    exact List.mem_of_getElem? (getElem?_enumerate (rowNumber_lt _ xs))

theorem mem_enumerate (h : xs.Pairwise (· < ·)) : a ∈ enumerate xs ↔ a.vars = xs := by
  rw [mem_enumerate_iff]
  constructor
  · exact Variable.eq_of_mem_iff a.pairwise_vars h
  · rintro rfl x
    exact Iff.rfl

/-- Where no variable is listed twice, an assignment of the variables is a single row. -/
theorem getElem?_enumerate_eq_some_iff (hxs : xs.Nodup) (h : ∀ x, x ∈ a.vars ↔ x ∈ xs) :
    (enumerate xs)[k]? = some a ↔ k = rowNumber a.valuation xs := by
  constructor
  · intro hk
    obtain ⟨hlt, hrow⟩ := eq_of_getElem?_enumerate hk
    refine eq_of_rowPairs_eq hlt (rowNumber_lt _ xs) ?_
    rw [rowPairs_rowNumber, rowPairs_eq_map hxs, hrow]
  · rintro rfl
    rw [getElem?_enumerate (rowNumber_lt _ xs), ofRow_rowNumber h]

theorem nodup_enumerate (h : xs.Nodup) : (enumerate xs).Nodup := by
  rw [List.nodup_iff_getElem?_ne_getElem?]
  intro i j hij hj heq
  rw [length_enumerate] at hj
  rw [getElem?_enumerate hj] at heq
  have hi := (getElem?_enumerate_eq_some_iff h fun _ => mem_vars_ofRow).1 heq
  have hj := (getElem?_enumerate_eq_some_iff h fun _ => mem_vars_ofRow).1 (getElem?_enumerate hj)
  omega

end Assignment

end TruthTables
