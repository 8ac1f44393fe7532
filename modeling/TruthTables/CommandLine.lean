import TruthTables.Journal

/-!
# The command line

The program prints the table of one expression, or writes it to a file. `CommandLine.plan` decides
everything but whether the file can be written; `CommandLine.run` takes that as given and says what
the program leaves behind. A summary is printed whether or not the file can be written.

`CommandLine.execute` is a run with given options. The lines of the journal that the verbosity asks
for (`CommandLine.journal`) go to standard error before the outcome, which leaves them out.
-/

set_option autoImplicit false

namespace TruthTables.CommandLine

structure Options where
  /-- Read from standard input if it is not given. -/
  expression : Option String := none
  maxVariables : Nat := Table.defaultLimit
  outFile : Option String := none
  summary : Bool := false
  verbosity : Nat := 0
deriving DecidableEq

/-- What is to be done; on standard error the notice comes before a failure to write. -/
inductive Plan
  | refuse (notice : String)
  | print (notice text : String)
  | save (notice path text : String)
deriving DecidableEq

/-- What the program leaves behind. -/
structure Outcome where
  exitCode : Nat
  stdout : String
  /-- What comes on standard error after the lines of the journal. -/
  stderr : String
  /-- The path and the content of a file that was written. -/
  file : Option (String × String)
deriving DecidableEq

/-! ## Texts -/

def verdict (t : Table) : String :=
  if t.isTautology then "tautology"
  else if t.isContradiction then "contradiction"
  else "contingent"

def summaryText (e : Expression) (t : Table) : String :=
  "Expression:  " ++ e.label ++ "\n"
    ++ "Variables:   " ++ toString t.vars.length ++ "\n"
    ++ "Rows:        " ++ toString t.rows.length ++ "\n"
    ++ "Columns:     " ++ toString t.columns.length ++ "\n"
    ++ "Verdict:     " ++ verdict t ++ "\n"

def unreadableInput : String :=
  "Error reading expression: stream did not contain valid UTF-8\n"

def parseFailure (input : String) (e : ParseError) : String :=
  "Error parsing '" ++ String.ofList (Text.trim input.toList) ++ "': " ++ e.message ++ "\n"

def writeFailure (path reason : String) : String :=
  "Error writing output file '" ++ path ++ "': " ++ reason ++ "\n"

/-! ## Running -/

/-- The text of the expression; nothing if it comes from an input that is not UTF-8. -/
def inputText? (o : Options) (input : ByteArray) : Option String :=
  match o.expression with
  | some s => some s
  | none => String.fromUTF8? input

def plan (o : Options) (input : ByteArray) : Plan :=
  match inputText? o input with
  | none => .refuse unreadableInput
  | some s =>
    match Expression.parse s with
    | .error e => .refuse (parseFailure s e)
    | .ok e =>
      match e.truthTable (some o.maxVariables) with
      | .error f => .refuse ("Error: " ++ f.message ++ "\n")
      | .ok t =>
        let notice := if o.summary then summaryText e t else ""
        match o.outFile with
        | none => .print notice (t.text ++ "\n")
        | some path => .save notice path (t.text ++ "\n")

/-- The outcome, where `refusal` is the reason why the file cannot be written, if there is one. -/
def Plan.outcome (refusal : Option String) : Plan → Outcome
  | refuse notice => ⟨1, "", notice, none⟩
  | print notice text => ⟨0, text, notice, none⟩
  | save notice path text =>
    match refusal with
    | some reason => ⟨1, "", notice ++ writeFailure path reason, none⟩
    | none => ⟨0, "", notice, some (path, text)⟩

def run (o : Options) (input : ByteArray) (refusal : Option String) : Outcome :=
  (plan o input).outcome refusal

/-- The journal of a run, as far as the verbosity asks for it. -/
def journal (o : Options) (input : ByteArray) : List Journal.Entry :=
  let least := match o.verbosity with
    | 0 => Severity.warn
    | 1 => Severity.debug
    | _ => Severity.trace
  match inputText? o input with
  | none => []
  | some s => Journal.upTo (some least) (Journal.ofTabulation s (some o.maxVariables))

/-! ## Input and output -/

/-- The reason that the system gives for not writing a file. -/
def refusalText : IO.Error → String
  | .noFileOrDirectory _ code details => details ++ " (os error " ++ toString code ++ ")"
  | .permissionDenied _ code details => details ++ " (os error " ++ toString code ++ ")"
  | .inappropriateType _ code details => details ++ " (os error " ++ toString code ++ ")"
  | e => toString e

/-- Tries to write the file of a plan, if it has one. -/
def save : Plan → IO (Option String)
  | .save _ path text => do
    try
      IO.FS.writeFile path text
      return none
    catch e => return some (refusalText e)
  | _ => return none

def execute (o : Options) : IO UInt32 := do
  let input ← match o.expression with
    | some _ => pure ByteArray.empty
    | none => (← IO.getStdin).readBinToEnd
  for entry in journal o input do
    IO.eprintln ("[" ++ entry.severity.name ++ "] " ++ entry.message)
  let refusal ← save (plan o input)
  let outcome := run o input refusal
  IO.eprint outcome.stderr
  IO.print outcome.stdout
  return UInt32.ofNat outcome.exitCode

end TruthTables.CommandLine
