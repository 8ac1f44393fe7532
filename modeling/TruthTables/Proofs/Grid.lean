import TruthTables.Table

/-!
# The cells of a grid

A grid in which slots and rows fit each other (`Grid.WellFormed`) acts like a map from rows and
labels to values: beginning a row changes no cell (`Grid.cell?_startRow`) and filling changes one
(`Grid.cell?_fill`), whether or not the label had a slot. So each cell of a grid that was filled row
by row holds what was last filled with its label in its row: `Grid.cell?_ofRows`.
-/

set_option autoImplicit false

namespace TruthTables

/-- The value of the last record with this label, or else `before`. -/
def Record.latest? (label : String) (before : Option Bool) (row : List Record) : Option Bool :=
  row.foldl (fun value r => if r.label = label then some r.value else value) before

namespace Grid

/-- Labels have slots of their own below the number of slots, and no row goes beyond them. -/
structure WellFormed (g : Grid) : Prop where
  slot_lt : ∀ {label : String} {slot}, g.slots[label]? = some slot → slot < g.slots.size
  slot_inj : ∀ {label label' : String} {slot}, g.slots[label]? = some slot →
    g.slots[label']? = some slot → label = label'
  row_le : ∀ {i : Nat} {row}, g.rows[i]? = some row → row.size ≤ g.slots.size

/-! ## Slots -/

theorem size_setSlot (slot : Nat) (value : Bool) (row : Array (Option Bool)) :
    (setSlot slot value row).size = max row.size (slot + 1) := by
  simp [setSlot]
  omega

theorem getElem?_setSlot (slot : Nat) (value : Bool) (row : Array (Option Bool)) (i : Nat) :
    (setSlot slot value row)[i]?.join = if i = slot then some value else row[i]?.join := by
  unfold setSlot
  rw [Array.getElem?_setIfInBounds, Array.size_append, Array.size_replicate]
  by_cases h : i = slot
  · rw [if_pos h.symm, if_pos (by omega), if_pos h]
    rfl
  · rw [if_neg (Ne.symm h), if_neg h, Array.getElem?_append]
    split
    · rfl
    · next hi =>
      rw [Array.getElem?_eq_none (Nat.le_of_not_lt hi), Array.getElem?_replicate]
      split <;> rfl

/-- The slot that filling a label sets. -/
def slotOf (g : Grid) (label : String) : Nat := (g.slots[label]?).getD g.slots.size

theorem rows_fill (g : Grid) (label : String) (value : Bool) :
    (g.fill label value).rows =
      g.rows.modify (g.rows.size - 1) (setSlot (g.slotOf label) value) := by
  unfold fill slotOf
  cases g.slots[label]? <;> rfl

/-- Filling changes the last row, if there is one. -/
theorem getElem?_rows_fill (g : Grid) (label : String) (value : Bool) (i : Nat) :
    (g.fill label value).rows[i]? =
      if i + 1 = g.rows.size then (g.rows[i]?).map (setSlot (g.slotOf label) value)
      else g.rows[i]? := by
  rw [rows_fill, Array.getElem?_modify]
  by_cases hi : i + 1 = g.rows.size
  · rw [if_pos (by omega), if_pos hi]
  · rw [if_neg hi]
    split
    · rw [Array.getElem?_eq_none (by omega), Option.map_none]
    · rfl

theorem slots_fill (g : Grid) (label : String) (value : Bool) (label' : String) :
    (g.fill label value).slots[label']? =
      if label' = label then some (g.slotOf label) else g.slots[label']? := by
  unfold fill slotOf
  cases h : g.slots[label]? with
  | some slot =>
    by_cases hl : label' = label
    · rw [if_pos hl, hl]
      exact h
    · rw [if_neg hl]
  | none =>
    simp only [Std.HashMap.getElem?_insert, beq_iff_eq, Option.getD_none, eq_comm (a := label)]

theorem size_slots_fill (g : Grid) (label : String) (value : Bool) :
    (g.fill label value).slots.size =
      if g.slots[label]? = none then g.slots.size + 1 else g.slots.size := by
  unfold fill
  cases h : g.slots[label]? with
  | some slot => rfl
  | none =>
    have hm : label ∉ g.slots := by rw [Std.HashMap.mem_iff_isSome_getElem?, h]; decide
    simp only [Std.HashMap.size_insert, if_neg hm, if_pos]

@[simp] theorem size_rows_fill (g : Grid) (label : String) (value : Bool) :
    (g.fill label value).rows.size = g.rows.size := by
  rw [rows_fill, Array.size_modify]

@[simp] theorem size_rows_startRow (g : Grid) : g.startRow.rows.size = g.rows.size + 1 :=
  Array.size_push _

namespace WellFormed

variable {g : Grid} {label : String}

theorem empty : WellFormed Grid.empty where
  slot_lt h := by simp [Grid.empty] at h
  slot_inj h := by simp [Grid.empty] at h
  row_le h := by simp [Grid.empty] at h

/-- The slot to be set is below the number of slots there will be. -/
theorem slotOf_lt (hg : g.WellFormed) (label : String) (value : Bool) :
    g.slotOf label < (g.fill label value).slots.size := by
  rw [size_slots_fill]
  unfold slotOf
  cases h : g.slots[label]? with
  | none => exact Nat.lt_succ_self _
  | some slot => exact hg.slot_lt h

/-- No other label has the slot to be set. -/
theorem slotOf_ne (hg : g.WellFormed) {label' : String} {slot : Nat} (hl : label' ≠ label)
    (h : g.slots[label']? = some slot) : slot ≠ g.slotOf label := by
  unfold slotOf
  cases hs : g.slots[label]? with
  | none => exact Nat.ne_of_lt (hg.slot_lt h)
  | some s =>
    rintro rfl
    exact hl (hg.slot_inj h hs)

theorem startRow (hg : g.WellFormed) : g.startRow.WellFormed where
  slot_lt := hg.slot_lt
  slot_inj := hg.slot_inj
  row_le {i row} h := by
    have h : (g.rows.push (.replicate g.slots.size none))[i]? = some row := h
    rw [Array.getElem?_push] at h
    split at h
    · cases h
      exact Nat.le_of_eq Array.size_replicate
    · exact hg.row_le h

theorem fill (hg : g.WellFormed) (label : String) (value : Bool) :
    (g.fill label value).WellFormed := by
  have hle : g.slots.size ≤ (g.fill label value).slots.size := by
    rw [size_slots_fill]
    split <;> omega
  have hlt := hg.slotOf_lt label value
  refine ⟨fun {l s} h => ?_, fun {l l' s} h h' => ?_, fun {i row} h => ?_⟩
  · rw [slots_fill] at h
    split at h
    · cases h
      exact hlt
    · exact Nat.lt_of_lt_of_le (hg.slot_lt h) hle
  · rw [slots_fill] at h h'
    split at h
    · next hl =>
      split at h'
      · next hl' => rw [hl, hl']
      · next hl' =>
        cases h
        exact absurd rfl (hg.slotOf_ne hl' h')
    · next hl =>
      split at h'
      · cases h'
        exact absurd rfl (hg.slotOf_ne hl h)
      · exact hg.slot_inj h h'
  · rw [getElem?_rows_fill] at h
    split at h
    · obtain ⟨row', hr, rfl⟩ := Option.map_eq_some_iff.1 h
      have := hg.row_le hr
      rw [size_setSlot]
      omega
    · exact Nat.le_trans (hg.row_le h) hle

end WellFormed

/-! ## Cells -/

theorem cell?_eq (g : Grid) (i : Nat) (label : String) :
    g.cell? i label = (g.slots[label]?).bind fun slot => (g.rows[i]?).bind fun row =>
      row[slot]?.join := by
  unfold cell?
  cases g.slots[label]? <;> cases g.rows[i]? <;> rfl

theorem cell?_eq_none {g : Grid} {i : Nat} (h : g.rows.size ≤ i) (label : String) :
    g.cell? i label = none := by
  rw [cell?_eq, Array.getElem?_eq_none h]
  cases g.slots[label]? <;> rfl

/-- A row that has been begun has no values. -/
theorem cell?_startRow (g : Grid) (i : Nat) (label : String) :
    g.startRow.cell? i label = g.cell? i label := by
  rw [cell?_eq, cell?_eq]
  show (g.slots[label]?).bind (fun slot =>
    ((g.rows.push (.replicate g.slots.size none))[i]?).bind fun row => row[slot]?.join) = _
  rw [Array.getElem?_push]
  by_cases h : i = g.rows.size
  · rw [if_pos h, h, Array.getElem?_eq_none (Nat.le_refl _)]
    cases g.slots[label]? with
    | none => rfl
    | some slot =>
      simp only [Option.bind_some, Option.bind_none, Array.getElem?_replicate]
      split <;> rfl
  · rw [if_neg h]

/-- Filling changes the cell of the label in the last row and no other, even where the label gets
its slot only now or the row has to grow. -/
theorem cell?_fill {g : Grid} (hg : g.WellFormed) (label : String) (value : Bool) (i : Nat)
    (label' : String) :
    (g.fill label value).cell? i label' =
      if i + 1 = g.rows.size ∧ label' = label then some value else g.cell? i label' := by
  rw [cell?_eq, cell?_eq, slots_fill, getElem?_rows_fill]
  by_cases hl : label' = label
  · subst hl
    rw [if_pos rfl, Option.bind_some]
    by_cases hi : i + 1 = g.rows.size
    · have hlt : i < g.rows.size := by omega
      rw [if_pos hi, if_pos ⟨hi, rfl⟩, Array.getElem?_eq_getElem hlt, Option.map_some,
        Option.bind_some, getElem?_setSlot, if_pos rfl]
    · rw [if_neg hi, if_neg fun h => hi h.1]
      cases hs : g.slots[label']? with
      | some slot => rw [slotOf, hs]; rfl
      | none =>
        -- The slot is new, so it lies beyond the end of every row.
        rw [slotOf, hs]
        cases hrow : g.rows[i]? with
        | none => rfl
        | some row =>
          have := hg.row_le hrow
          rw [Option.bind_some, Option.getD_none, Array.getElem?_eq_none this]
          rfl
  · rw [if_neg hl, if_neg (c := _ ∧ _) fun h => hl h.2]
    cases hs : g.slots[label']? with
    | none => rfl
    | some slot =>
      rw [Option.bind_some, Option.bind_some]
      split
      · cases g.rows[i]? with
        | none => rfl
        | some row =>
          rw [Option.map_some, Option.bind_some, Option.bind_some, getElem?_setSlot,
            if_neg (hg.slotOf_ne hl hs)]
      · rfl

/-! ## Rows -/

/-- Filling a row's records one after the other. -/
theorem cell?_foldl_fill (row : List Record) {g : Grid} (hg : g.WellFormed) :
    let g' := row.foldl (fun g r => g.fill r.label r.value) g
    g'.WellFormed ∧ g'.rows.size = g.rows.size ∧ ∀ i label, g'.cell? i label =
      if i + 1 = g.rows.size then Record.latest? label (g.cell? i label) row
      else g.cell? i label := by
  induction row generalizing g with
  | nil => exact ⟨hg, rfl, fun i label => (ite_self _).symm⟩
  | cons r row ih =>
    obtain ⟨hg', hsize, hcell⟩ := ih (hg.fill r.label r.value)
    rw [size_rows_fill] at hsize hcell
    refine ⟨hg', hsize, fun i label => ?_⟩
    rw [List.foldl_cons, hcell, cell?_fill hg]
    by_cases hi : i + 1 = g.rows.size
    · rw [if_pos hi, if_pos hi, Record.latest?, Record.latest?, List.foldl_cons]
      simp only [hi, true_and, eq_comm]
    · rw [if_neg hi, if_neg hi, if_neg fun h => hi h.1]

/-- Filling row after row. -/
theorem cell?_foldl_rows (rows : List (List Record)) {g : Grid} (hg : g.WellFormed) :
    let g' := rows.foldl
      (fun g row => row.foldl (fun g r => g.fill r.label r.value) g.startRow) g
    g'.WellFormed ∧ ∀ i label, g'.cell? i label =
      if i < g.rows.size then g.cell? i label
      else Record.latest? label none (rows[i - g.rows.size]?.getD []) := by
  induction rows generalizing g with
  | nil =>
    refine ⟨hg, fun i label => ?_⟩
    split
    · rfl
    · next hi =>
      rw [List.foldl_nil, cell?_eq_none (Nat.le_of_not_lt hi)]
      rfl
  | cons row rows ih =>
    obtain ⟨hrow, hsize, hcell⟩ := cell?_foldl_fill row hg.startRow
    obtain ⟨hg', hcell'⟩ := ih hrow
    rw [size_rows_startRow] at hsize hcell
    refine ⟨hg', fun i label => ?_⟩
    rw [List.foldl_cons, hcell', hsize, hcell, cell?_startRow]
    rcases Nat.lt_trichotomy i g.rows.size with hi | hi | hi
    · rw [if_pos (by omega), if_neg (by omega), if_pos hi]
    · -- This row: it had no cells before.
      subst hi
      rw [if_pos (by omega), if_pos rfl, if_neg (by omega), cell?_eq_none (Nat.le_refl _),
        Nat.sub_self]
      rfl
    · obtain ⟨j, rfl⟩ := Nat.exists_eq_add_of_lt hi
      have hj : g.rows.size + j + 1 - g.rows.size = j + 1 := by omega
      have hj' : g.rows.size + j + 1 - (g.rows.size + 1) = j := by omega
      rw [if_neg (by omega), if_neg (by omega), hj, hj', List.getElem?_cons_succ]

/-- **A cell holds what was last filled with its label in its row.** -/
theorem cell?_ofRows (rows : List (List Record)) (i : Nat) (label : String) :
    (ofRows rows).cell? i label = Record.latest? label none (rows[i]?.getD []) := by
  rw [ofRows, (cell?_foldl_rows rows WellFormed.empty).2]
  rfl

end Grid

end TruthTables
