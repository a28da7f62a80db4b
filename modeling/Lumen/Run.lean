import Lumen.Eval
import Lumen.Node.Parser
import Lumen.Token.Lexer
import Lumen.Tree.Node

/-!
# Running programs

A program is run on a machine and leaves it changed, so that programs can be run one after another.
Signals of loops and functions end here, and running out of room is a failure of the program.
-/

namespace Lumen

/-- How a run ends. -/
inductive Outcome where
  | value (v : Option Value)
  | failure (d : Diagnostic)
  | exit (code : Int)
  | fault (f : Fault)
  /-- There was no room left for something that is no program. -/
  | exhausted
  /-- A loop went round more often than allowed. -/
  | endless

namespace Outcome

/-- A diagnostic can be reported unless one of its marks is no place. -/
def ofDiagnostic (d : Diagnostic) : Outcome :=
  if d.span.isPlain then failure d else fault .malformed

def ofResult (program : Except Fault Span) : Except Stop (Option Value) → Outcome
  | .ok v => value v
  | .error (.giveBack v) => value (some v)
  | .error .breakLoop | .error .continueLoop => value none
  | .error (.failure d) => ofDiagnostic d
  | .error (.exit code) => exit code
  | .error (.fault f) => fault f
  | .error .exhausted =>
    match program with
    | .ok s => ofDiagnostic (Diagnostic.onSpan .recursionExceeded s)
    | .error f => fault f
  | .error .endless => endless

end Outcome

namespace Machine

def run (limits : Limits) (program : Tree) (m : Machine) : Outcome × Machine :=
  let m := m.note 1 fun _ =>
    "run " ++ program.typeName ++ " in " ++ (Scope.mk Store.rootName none []).describe
  let (result, m) := (evaluate limits.rounds limits.stack program Store.root).run.run m
  (Outcome.ofResult program.span result, m)

end Machine

namespace Node

def ofSource (limits : Limits) (source file : String) : Except Diagnostic Node := do
  Node.ofTokens limits.nesting (← TokenStream.ofSource source file)

end Node

namespace Machine

def runSource (limits : Limits) (source file : String) (m : Machine) : Outcome × Machine :=
  match Node.ofSource limits source file with
  | .error d => (.failure d, m)
  | .ok program => m.run limits (Tree.ofNode program)

def takeOutput (m : Machine) : String × Machine := (m.output, { m with output := "" })

end Machine

end Lumen
