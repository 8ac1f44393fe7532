import TruthTables.Reply

/-!
# Journal

What is noted down while an expression is read, tabulated or refused. The entries of a stage are a
function of what went into it and what came out; `Journal.upTo` keeps those that are severe enough.
-/

set_option autoImplicit false

namespace TruthTables

/-- From the most severe to the least. -/
inductive Severity
  | error | warn | info | debug | trace
deriving DecidableEq

namespace Severity

def rank : Severity → Nat
  | error => 1
  | warn => 2
  | info => 3
  | debug => 4
  | trace => 5

def name : Severity → String
  | error => "ERROR"
  | warn => "WARN"
  | info => "INFO"
  | debug => "DEBUG"
  | trace => "TRACE"

end Severity

structure Journal.Entry where
  severity : Severity
  message : String
deriving DecidableEq

namespace Journal

/-- The entries down to a severity; none at all if no severity is wanted. -/
def upTo : Option Severity → List Entry → List Entry
  | none, _ => []
  | some least, entries => entries.filter fun entry => entry.severity.rank ≤ least.rank

/-- An assignment as an entry shows it. -/
def assignmentText (a : Assignment) : String :=
  let pairs := a.entries.map fun (x, b) =>
    "Variable(" ++ Text.quoteChar x.letter ++ "): " ++ toString b
  "\x7b" ++ ", ".intercalate pairs ++ "\x7d"

/-- Reading a text. -/
def ofText (s : String) : List Entry :=
  let text := canonical s
  ⟨.debug, "normalized " ++ Text.quote s ++ " to " ++ Text.quote text⟩ ::
    match Expression.parse s with
    | .error _ => []
    | .ok e =>
      [⟨.debug, "parsed " ++ Text.quote text ++ " into " ++ toString e.root.size ++ " nodes over "
        ++ toString e.vars.length ++ " variables"⟩]

/-- Building the table of an expression. -/
def ofTable (e : Expression) (t : Table) : List Entry :=
  ⟨.debug, "building truth table for " ++ Text.quote e.label ++ ": "
    ++ toString e.vars.length ++ " variables, " ++ toString (Assignment.rowCount e.vars.length)
    ++ " rows"⟩ ::
  List.zipWith (fun row result => ⟨.trace, "row " ++ assignmentText row.assignment ++ " -> "
    ++ toString (result.getD false)⟩) t.rows t.results
  ++ [⟨.debug, "truth table has " ++ toString t.columns.length ++ " columns from "
    ++ toString t.records.length ++ " distinct records"⟩]

/-- Telling a user about a failure. -/
def ofFailure (f : Failure) : List Entry :=
  if f.isInternal then [⟨.warn, "internal failure while building reply: " ++ f.message⟩] else []

/-- Reading a text and building its table, or as much of it as succeeds. -/
def ofTabulation (s : String) (limit : Option Nat) : List Entry :=
  ofText s ++
    match Expression.parse s with
    | .error _ => []
    | .ok e =>
      match e.truthTable limit with
      | .error _ => []
      | .ok t => ofTable e t

end Journal

end TruthTables
