import TruthTables.Reply
import TruthTables.Proofs.Layout

/-!
# What is sent

The lines of a table are of one width, so the length of a message with the table in it is known
from the numbers of rows and columns and the widths of the columns (`Table.length_text`), and the
widest column is that of the whole (`Table.forall_columnWidths_le`). This gives the decision between
message and attachment in a closed form, `Delivery.ofTable_eq`, and from it all that a text can be
answered with: `reply_cases`.
-/

set_option autoImplicit false

namespace TruthTables

namespace Table

variable {e : Expression}

/-! ## Sizes of tables -/

/-- The width of every printed line: all columns and the bars between them. -/
def width (t : Table) : Nat := t.columnWidths.sum + (t.columns.length - 1)

theorem length_eq_width {line : String} (h : line ∈ e.table.lines) :
    line.length = e.table.width := by
  obtain ⟨i, hi⟩ := List.getElem?_of_mem h
  have hlength := (ruled_lines hi).1.length_eq
  rw [String.length_toList] at hlength
  rw [hlength, width, columnWidths, List.length_map]

/-- With a line feed after each, the lines are one character longer than the text. -/
theorem length_text (e : Expression) :
    e.table.text.length + 1 = (2 ^ e.vars.length + 2) * (e.table.width + 1) := by
  have hlengths : (e.table.lines.map String.toList).map List.length =
      List.replicate (2 ^ e.vars.length + 2) e.table.width := by
    rw [List.eq_replicate_iff]
    refine ⟨?_, fun n hn => ?_⟩
    · rw [List.length_map, List.length_map, length_lines, length_rows_ofRecords]
      rfl
    · obtain ⟨piece, hpiece, rfl⟩ := List.mem_map.1 hn
      obtain ⟨line, hline, rfl⟩ := List.mem_map.1 hpiece
      rw [String.length_toList, length_eq_width hline]
  have hlength := (ruled_intercalate (lineFeed_not_mem_lines e)).length_eq
  rw [hlengths, List.length_replicate, List.sum_replicate_nat] at hlength
  rw [text, ← String.length_toList, String.toList_intercalate]
  show (['\n'].intercalate (e.table.lines.map String.toList)).length + 1 = _
  have hpos := Nat.two_pow_pos e.vars.length
  rw [hlength, Nat.mul_add_one]
  omega

/-- No column is wider than that of the whole. -/
theorem forall_columnWidths_le (he : e.vars = e.root.vars) {bound : Nat} :
    (∀ width ∈ e.table.columnWidths, width ≤ bound) ↔ e.label.length + 2 ≤ bound := by
  constructor
  · intro h
    exact h _ (List.mem_map.2 ⟨e.label, label_mem_columns e, rfl⟩)
  · intro h width hwidth
    obtain ⟨label, hl, rfl⟩ := List.mem_map.1 hwidth
    by_cases hlabel : label = e.label
    · rwa [hlabel]
    · have hlt := length_label_lt he hl hlabel
      omega

theorem rootLabel_eq (he : e.vars = e.root.vars) : e.table.rootLabel = e.label := by
  obtain ⟨hlt, heq, -⟩ := List.idxOf?_eq_some_iff.1 (idxOf?_label he).1
  rw [rootLabel, List.getElem?_eq_getElem hlt, Option.getD_some, heq]

end Table

namespace Delivery

variable {e : Expression}

/-! ## Deliveries of tables -/

/-- The length of a message with the table between fences. -/
def inlineLength (e : Expression) : Nat := (2 ^ e.vars.length + 2) * (e.table.width + 1) + 7

theorem length_fenced_lines (e : Expression) :
    (fenced e.table.lines).length = inlineLength e := by
  have hlength := Table.length_text e
  have hopen : "```\n".length = 4 := by decide
  have hclose : "\n```".length = 4 := by decide
  rw [fenced, String.length_append, String.length_append, hopen, hclose, inlineLength, ← hlength,
    Table.text]
  omega

theorem ofTable_eq (he : e.vars = e.root.vars) (limits : DeliveryLimits) :
    ofTable e.table limits =
      if inlineLength e ≤ limits.messageLength ∧ e.label.length + 2 ≤ limits.columnWidth
      then inline ("```\n" ++ e.table.text ++ "\n```")
      else attachment (notice e.label) (e.table.text ++ "\n") := by
  simp only [ofTable, length_fenced_lines, Table.forall_columnWidths_le he, Table.rootLabel_eq he]
  rfl

theorem length_notice (label : String) : (notice label).length = label.length + 72 := by
  have hbefore : "The truth table for `".length = 21 := by decide +kernel
  have hafter : "` is too large to show here, see the attached file.".length = 51 := by
    decide +kernel
  have hlength : (notice label).length = "The truth table for `".length + label.length +
      "` is too large to show here, see the attached file.".length := by
    unfold notice
    simp only [String.length_append]
  omega

end Delivery

/-! ## Replies to texts -/

theorem Expression.truthTable_of_lt {e : Expression} {limit : Nat} (hlt : limit < e.vars.length) :
    e.truthTable (some limit) = .error (.variableLimit e.vars.length limit) := by
  have hfilter : (some limit).filter (fun n => n < e.vars.length) = some limit := by simp [hlt]
  simp only [truthTable, hfilter]

theorem Expression.truthTable_of_le {e : Expression} {limit : Nat} (he : e.vars = e.root.vars)
    (hle : e.vars.length ≤ limit) : e.truthTable (some limit) = .ok e.table := by
  have hfilter : (some limit).filter (fun n => n < e.vars.length) = none := by simp [hle]
  simp only [truthTable, hfilter, Table.build_eq he]
  rfl

section

variable {s : String} {e : Expression} {limit : Nat} {limits : DeliveryLimits}

theorem reply_of_error {cause : ParseError} (h : Expression.parse s = .error cause) :
    reply s limit limits = .error (.parse cause) := by
  rw [reply, h]

theorem reply_of_lt (h : Expression.parse s = .ok e) (hlt : limit < e.vars.length) :
    reply s limit limits = .error (.variableLimit e.vars.length limit) := by
  rw [reply, h]
  simp only [Expression.truthTable_of_lt hlt]
  rfl

theorem reply_of_le (h : Expression.parse s = .ok e) (hle : e.vars.length ≤ limit) :
    reply s limit limits = .ok (Delivery.ofTable e.table limits) := by
  rw [reply, h]
  simp only [Expression.truthTable_of_le (Expression.vars_of_parse h) hle]
  rfl

/-- What a text is answered with. -/
theorem reply_cases (s : String) (limit : Nat) (limits : DeliveryLimits) :
    (∃ cause, Expression.parse s = .error cause ∧
      reply s limit limits = .error (.parse cause)) ∨
    ∃ e, Expression.parse s = .ok e ∧
      (limit < e.vars.length ∧
          reply s limit limits = .error (.variableLimit e.vars.length limit) ∨
        e.vars.length ≤ limit ∧ reply s limit limits = .ok (Delivery.ofTable e.table limits)) := by
  cases h : Expression.parse s with
  | error cause => exact .inl ⟨cause, rfl, reply_of_error h⟩
  | ok e =>
    refine .inr ⟨e, rfl, ?_⟩
    rcases Nat.lt_or_ge limit e.vars.length with hlt | hle
    · exact .inl ⟨hlt, reply_of_lt h hlt⟩
    · exact .inr ⟨hle, reply_of_le h hle⟩

end

end TruthTables
