import Lumen.Json.Reader
import Lumen.Json.Writer
import Lumen.Shell
import Lumen.Text.Newline
import Lumen.Tree.Node

/-!
# The command line

What the arguments ask for, and what is then printed and written to files. Reading the one file
that a command needs is left to the caller, so everything here is a function of the arguments, the
file's contents and the standard input.
-/

namespace Lumen

namespace CommandLine

/-- What the interpreter is asked to do. -/
inductive Command where
  /-- Write the document of the program in a file. -/
  | emit (file : String)
  /-- Run the program of a document. -/
  | replay (file : String)
  | program (file : String)
  | shell
deriving DecidableEq, Repr

structure Options where
  verbosity : Nat
  command : Command
deriving DecidableEq, Repr

/-- What the arguments ask for. -/
inductive Request where
  | run (options : Options)
  | help
  /-- The arguments make no sense. -/
  | usage
deriving DecidableEq, Repr

/-- The options: more trace, the two that take a file, and the call for help. -/
inductive Flag where
  | verbose
  | emit
  | replay
  | help
deriving DecidableEq, Repr

/-- An argument by the way it is written. -/
inductive Word where
  | plain (s : String)
  /-- The double dash behind which nothing is an option. -/
  | separator
  /-- A dash and letters, of which the first is an option. -/
  | letters (cs : List Char)
  /-- A long option with the value behind its equality sign, if it has one. -/
  | long (f : Flag) (value : Option String)
  /-- An option that there is not. -/
  | unknown
  /-- A long option cut so short that it could be several. -/
  | ambiguous
deriving DecidableEq, Repr

def longFlags : List (String × Flag) :=
  [("--help", .help), ("--emit-ast", .emit), ("--ast", .replay)]

def letterFlag? : Char → Option Flag
  | 'v' => some .verbose
  | 'h' => some .help
  | _ => none

/-- What stands behind a dash is a number; a line break may end it. -/
def isNumber (cs : List Char) : Bool :=
  let isDigit (c : Char) : Bool := (Text.digitValue? c).isSome
  let cs := if cs.getLast? = some '\n' then cs.dropLast else cs
  let whole := cs.takeWhile isDigit
  match cs.dropWhile isDigit with
  | [] => !whole.isEmpty
  | '.' :: decimals => !decimals.isEmpty && decimals.all isDigit
  | _ => false

def splitValue (arg : String) : String × Option String :=
  let cs := arg.toList
  match cs.dropWhile (· != '=') with
  | [] => (arg, none)
  | _ :: value => (String.ofList (cs.takeWhile (· != '=')), some (String.ofList value))

/-- The options that a long name may stand for: it may be cut short. -/
def longFlagsOf (name : String) : List Flag :=
  match longFlags.lookup name with
  | some f => [f]
  | none => (longFlags.filter fun (whole, _) => name.toList.isPrefixOf whole.toList).map Prod.snd

namespace Word

/-- What starts with a dash and is no option: plain if it holds a blank. -/
def notOption (arg : String) : Word := if arg.toList.contains ' ' then plain arg else unknown

def ofLong (arg : String) : Word :=
  let (name, value) := splitValue arg
  match longFlagsOf name with
  | [] => notOption arg
  | [f] => long f value
  | _ => ambiguous

def ofArgument (arg : String) : Word :=
  match arg.toList with
  | ['-', '-'] => separator
  | '-' :: '-' :: _ => ofLong arg
  | '-' :: c :: cs =>
    if (letterFlag? c).isSome then letters (c :: cs)
    else if isNumber (c :: cs) then plain arg
    else notOption arg
  | _ => plain arg

/-- All arguments; those behind the first separator are plain. -/
def ofArguments : List String → List Word
  | [] => []
  | arg :: args =>
    match ofArgument arg with
    | separator => separator :: args.map plain
    | w => w :: ofArguments args

end Word

/-- Options written together, and whether all of the letters are options; nothing if a dash or an
equality sign is among them. -/
def readLetters : List Char → Option (List Flag × Bool)
  | [] => some ([], true)
  | c :: cs =>
    if c = '-' ∨ c = '=' then none
    else
      match letterFlag? c with
      | some f => (readLetters cs).map fun (fs, known) => (f :: fs, known)
      | none => some ([], false)

/-- The arguments read so far. An option with a file keeps the last file given. -/
structure Draft where
  verbosity : Nat
  emit : Option String
  replay : Option String
  program : Option String
  /-- No argument so far was one too many or an option that there is not. -/
  understood : Bool

namespace Draft

def start : Draft := ⟨0, none, none, none, true⟩

def puzzled (d : Draft) : Draft := { d with understood := false }

def positional (d : Draft) (arg : String) : Draft :=
  match d.program with
  | none => { d with program := some arg }
  | some _ => d.puzzled

/-- The two options that take a file exclude each other. -/
def withFile (d : Draft) (f : Flag) (file : String) : Option Draft :=
  match f with
  | .emit => if d.replay.isSome then none else some { d with emit := some file }
  | .replay => if d.emit.isSome then none else some { d with replay := some file }
  | _ => none

def withLetters (d : Draft) (flags : List Flag) (known : Bool) : Draft :=
  { d with
    verbosity := d.verbosity + flags.count .verbose
    understood := d.understood && known }

def given (file : Option String) : Option String := file.filter (· != "")

def options (d : Draft) : Options :=
  ⟨d.verbosity,
    match given d.emit, given d.replay, given d.program with
    | some f, _, _ => .emit f
    | none, some f, _ => .replay f
    | none, none, some f => .program f
    | none, none, none => .shell⟩

end Draft

/-- Reads the arguments from the left. The separator stands in front of the program file or right
behind it. What is not understood counts only at the end, so that a later call for help is heard. -/
def readWords (d : Draft) : List Word → Request
  | [] => if d.understood then .run d.options else .usage
  | .plain s :: .separator :: ws => readWords (d.positional s) ws
  | .plain s :: ws => readWords (d.positional s) ws
  | .separator :: ws => readWords (if d.program.isNone then d else d.puzzled) ws
  | .unknown :: ws => readWords d.puzzled ws
  | .ambiguous :: _ => .usage
  | .letters cs :: ws =>
    match readLetters cs with
    | none => .usage
    | some (flags, known) =>
      if flags.contains .help then .help else readWords (d.withLetters flags known) ws
  | .long .help none :: _ => .help
  | .long f (some file) :: ws =>
    match d.withFile f file with
    | some d => readWords d ws
    | none => .usage
  | .long f none :: .plain file :: ws =>
    match d.withFile f file with
    | some d => readWords d ws
    | none => .usage
  | .long _ none :: _ => .usage

/-- What the arguments ask for. An option that could be several is refused before any other is
read. -/
def Request.ofArguments (args : List String) : Request :=
  let words := Word.ofArguments args
  if words.contains .ambiguous then .usage else readWords Draft.start words

/-- The slashes that an absolute path keeps in front: two if there are just two, otherwise one. -/
def rootSlashes : List Char → String
  | '/' :: '/' :: '/' :: _ => "/"
  | '/' :: '/' :: _ => "//"
  | '/' :: _ => "/"
  | _ => ""

def normalizePath (path : String) : String :=
  let parts := (path.splitOn "/").filter fun p => p != "" && p != "."
  let whole := rootSlashes path.toList ++ String.intercalate "/" parts
  if whole = "" then "." else whole

namespace Command

def file? : Command → Option String
  | emit file | replay file | program file => some (normalizePath file)
  | shell => none

end Command

/-- What stands under a path. -/
inductive Contents where
  | missing
  | directory
  | text (s : String)

/-- How the whole command ends. -/
inductive Ending where
  | done
  | exit (code : Int)
  | fault (f : Fault)
  | exhausted
  | endless
deriving DecidableEq, Repr

/-- Everything that a command leaves behind. -/
structure Report where
  output : String
  errors : String
  /-- The files written, with their texts. -/
  files : List (String × String)
  ending : Ending

namespace Report

def traceFile : String := "debug.txt"

def failed (message : String) : Report := ⟨"", message ++ "\n", [], .exit 1⟩

def missing (file : String) : Report := failed ("Error: file " ++ file ++ " not found")

def ofMachine (m : Machine) (errors : String) (ending : Ending) : Report :=
  ⟨m.output, errors, if 0 < m.verbosity then [(traceFile, m.traceText)] else [], ending⟩

/-- A run that ended. Its value is not shown. -/
def ofOutcome (outcome : Outcome) (m : Machine) : Report :=
  match outcome with
  | .value _ => ofMachine m "" .done
  | .failure d => ofMachine m (d.render ++ "\n") (.exit 1)
  | .exit code => ofMachine m "" (.exit code)
  | .fault f => ofMachine m "" (.fault f)
  | .exhausted => ofMachine m "" .exhausted
  | .endless => ofMachine m "" .endless

def ofReply (reply : Shell.Reply) (s : Shell) : Report :=
  match reply with
  | .goOn | .leave => ofMachine s.machine "" .done
  | .exit code => ofMachine s.machine "" (.exit code)
  | .fault f => ofMachine s.machine "" (.fault f)
  | .exhausted => ofMachine s.machine "" .exhausted
  | .endless => ofMachine s.machine "" .endless

end Report

/-- The document of a program as it is written to a file. A level of it takes half as much room to
write as to read. -/
def documentText (limits : Limits) (program : Node) : Except Fault String := do
  let j ← (Tree.ofNode program).write (2 * limits.stack)
  .ok (j.writeIndented 0)

/-- Writes the document of a program next to its file, which is there before there is a document. -/
def emit (limits : Limits) (file source : String) : Report :=
  match Node.ofSource limits (Text.ofFile source) file with
  | .error d => Report.failed d.render
  | .ok program =>
    let target := file ++ ".ast.json"
    match documentText limits program with
    | .ok text => ⟨target ++ "\n", "", [(target, text)], .done⟩
    | .error f => ⟨"", "", [(target, "")], .fault f⟩

def readDocument (limits : Limits) (text : String) : Except Fault Tree :=
  match Json.ofText? (Text.ofFile text) with
  | none => .error .invalidDocument
  | some j => Tree.ofJson limits.stack j

/-- A failure before the run: the trace is empty but there. -/
def Report.before (m : Machine) (r : Report) : Report :=
  { r with files := (Report.ofMachine m "" .done).files }

def replay (limits : Limits) (text : String) (m : Machine) : Report :=
  match readDocument limits text with
  | .error f => Report.ofMachine m "" (.fault f)
  | .ok program =>
    let (outcome, m) := m.run limits program
    Report.ofOutcome outcome m

def runFile (limits : Limits) (file source : String) (m : Machine) : Report :=
  let (outcome, m) := m.runSource limits (Text.ofFile source) file
  Report.ofOutcome outcome m

/-- Runs what stands in a file. The trace file is emptied before the file is read. -/
def performOn (file : String) (contents : Contents) (m : Machine)
    (go : String → Machine → Report) : Report :=
  if 0 < m.verbosity ∧ file = Report.traceFile then go "" m
  else
    match contents with
    | .missing => (Report.missing file).before m
    | .directory => Report.ofMachine m "" (.fault .isDirectory)
    | .text s => go s m

def perform (limits : Limits) (options : Options) (contents : Contents) (input : String) : Report :=
  let m := Machine.initial input options.verbosity
  match options.command with
  | .emit file =>
    let file := normalizePath file
    match contents with
    | .missing => Report.missing file
    | .directory => ⟨"", "", [], .fault .isDirectory⟩
    | .text source => emit limits file source
  | .replay file => performOn (normalizePath file) contents m (replay limits)
  | .program file =>
    let file := normalizePath file
    performOn file contents m (runFile limits file)
  | .shell =>
    let (reply, s) := (Shell.initial input options.verbosity).interact limits
    Report.ofReply reply s

end CommandLine

end Lumen
