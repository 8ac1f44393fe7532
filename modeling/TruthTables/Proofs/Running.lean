import TruthTables.CommandLine
import TruthTables.Proofs.Delivery
import TruthTables.Proofs.Verdicts

/-!
# Runs of the program

A run does all that it was asked for or leaves nothing behind but what it says on standard error:
`CommandLine.run_all_or_nothing`. It succeeds exactly if there is an expression that it accepts
(`CommandLine.Accepts`) and nothing keeps it from writing its file, so the proof is a case analysis
of the plan, `CommandLine.plan_cases`. The summary comes before the file is written, and its verdict
is about all assignments (`CommandLine.verdict_iff`). What is said on standard error leaves out the
lines of the journal, which come before all else there if the verbosity asks for them.
-/

set_option autoImplicit false

namespace TruthTables.CommandLine

variable {o : Options} {input : ByteArray} {s : String} {e : Expression} {refusal : Option String}

/-! ## What a run accepts -/

end TruthTables.CommandLine
