import TruthTables.Table

/-!
# Replies

A text is read, tabulated and packed for delivery (`reply`). A table is sent in the message itself,
between fences, when the message is short enough and every column narrow enough; otherwise it goes
into an attached file and the message is a notice. Every way in which the path from a text to a
delivered table can fail has three texts: the full message, the message of the cause, and what an
end user is told. `Expression.truthTable` is the table of an expression that has not too many
variables.
-/

set_option autoImplicit false

namespace TruthTables

/-! ## Failures -/

/-- What the system reports when reading or writing fails. -/
structure SystemFault where
  /-- The name of its kind. -/
  kind : String
  message : String
deriving DecidableEq

/-- The fault of data that are not what they should be. -/
def SystemFault.invalidData (message : String) : SystemFault := ⟨"InvalidData", message⟩

inductive Failure
  | parse (cause : ParseError)
  | eval (cause : EvalError)
  /-- More variables than a table may have. -/
  | variableLimit (count limit : Nat)
  | system (fault : SystemFault)
deriving DecidableEq

/-- A text that cannot be read, as a fault of its own. -/
def ParseError.toFault (e : ParseError) : SystemFault := .invalidData e.message

def EvalError.toFault (e : EvalError) : SystemFault := .invalidData e.message

namespace Failure

/-- The number of rows for `n` variables: in digits below `2 ^ 128`, as a power from there. -/
def rowsText (n : Nat) : String :=
  if n < 128 then toString (Assignment.rowCount n) else "2^" ++ toString n

def message : Failure → String
  | parse e => "Failed to parse expression: " ++ e.message
  | eval e => "Failed to evaluate expression: " ++ e.message
  | variableLimit count limit =>
    "Expression uses " ++ toString count ++ " variables but at most " ++ toString limit
      ++ " are allowed (" ++ rowsText count ++ " rows)"
  | system fault => fault.message

/-- The message of what lies behind the failure, if anything does. -/
def source? : Failure → Option String
  | parse e => some e.message
  | eval e => some e.message
  | variableLimit _ _ => none
  | system fault => some fault.message

/-- The failure as a fault: one of the system stays what it is, any other is invalid data. -/
def toFault : Failure → SystemFault
  | system fault => fault
  | f => .invalidData f.message

/-- Whether the failure says nothing about the text that was given. -/
def isInternal : Failure → Bool
  | eval _ => true
  | system _ => true
  | _ => false

def userMessage : Failure → String
  | parse .emptyExpression => "Please provide an expression."
  | parse (.unbalancedParentheses _) => "The parentheses in that expression are unbalanced."
  | parse e => "That is not a valid expression: " ++ e.message ++ "."
  | variableLimit count limit =>
    "That expression has " ++ toString count ++ " variables; the limit is " ++ toString limit ++ "."
  | eval _ => "Something went wrong while building the truth table."
  | system _ => "Something went wrong while building the truth table."

end Failure

/-- How many variables a table that is sent or printed has at most unless another limit is set. -/
def Table.defaultLimit : Nat := 12

/-- The truth table, unless there are more variables than the limit, if one is set. -/
def Expression.truthTable (e : Expression) (limit : Option Nat) : Except Failure Table :=
  match limit.filter fun n => n < e.vars.length with
  | some n => .error (.variableLimit e.vars.length n)
  | none => (Table.build e).mapError .eval

/-! ## Delivery -/

/-- What the transport of messages can carry. -/
structure DeliveryLimits where
  /-- The longest message with its fences, in characters. -/
  messageLength : Nat := 2000
  /-- The widest column that can be read in a message. -/
  columnWidth : Nat := 140
deriving DecidableEq

inductive Delivery
  | inline (message : String)
  | attachment (notice content : String)
deriving DecidableEq

/-- Puts lines into a fenced block. -/
def fenced (lines : List String) : String := "```\n" ++ "\n".intercalate lines ++ "\n```"

namespace Delivery

/-- The message itself. -/
def text : Delivery → String
  | inline message => message
  | attachment notice _ => notice

/-- The name of an attached file; `tag` tells files apart. -/
def fileName (tag : String) : String := "truth-table-" ++ tag ++ ".txt"

def notice (label : String) : String :=
  "The truth table for `" ++ label ++ "` is too large to show here, see the attached file."

/-- Decides how a table is sent. -/
def ofTable (t : Table) (limits : DeliveryLimits) : Delivery :=
  let message := fenced t.lines
  if message.length ≤ limits.messageLength ∧ ∀ width ∈ t.columnWidths, width ≤ limits.columnWidth
  then inline message
  else attachment (notice t.rootLabel) (t.text ++ "\n")

end Delivery

/-- Reads, tabulates and packs an expression. -/
def reply (s : String) (limit : Nat) (limits : DeliveryLimits) : Except Failure Delivery :=
  match Expression.parse s with
  | .error e => .error (.parse e)
  | .ok e => (Delivery.ofTable · limits) <$> e.truthTable (some limit)

end TruthTables
