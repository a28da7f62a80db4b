import Lumen.Run
import Lumen.Text.Blank

/-!
# The interactive shell

Lines are collected while they leave brackets open and then run together on one machine. Three
words are commands of the shell; everything else is a program. The shell echoes the value of what
it ran, or reports its failure and goes on.
-/

namespace Lumen

structure Shell where
  machine : Machine
  /-- The lines that are still to be completed, each with its end. -/
  pending : String
  /-- What the shell asks for the next line with. -/
  prompt : String

namespace Shell

/-- What a line does to the session. -/
inductive Reply where
  | goOn
  /-- The session ends. -/
  | leave
  | exit (code : Int)
  | fault (f : Fault)
  | exhausted
  | endless
deriving DecidableEq, Repr

def fileName : String := "<stdin>"

def intro : String := "Luminary interpreter\nType 'exit' or press Ctrl-D to leave."

def yellow (s : String) : String := "\x1b[33m" ++ s ++ Diagnostic.reset

def mainPrompt : String := yellow "luminary %" ++ " "

def continuationPrompt : String := yellow "..." ++ " "

def idle (m : Machine) : Shell := ⟨m, "", mainPrompt⟩

def initial (input : String) (verbosity : Nat) : Shell := idle (Machine.initial input verbosity)

def print (s : Shell) (text : String) : Shell := { s with machine := s.machine.print text }

/-- Shows how a run ended. A value that has no text ends the line without an echo. -/
def echo (limits : Limits) (outcome : Outcome) (s : Shell) : Reply × Shell :=
  match outcome with
  | .failure d => (.goOn, s.print (d.render ++ Diagnostic.reset ++ "\n"))
  | .value none => (.goOn, s)
  | .value (some v) =>
    match v.payload with
    | .null => (.goOn, s)
    | _ =>
      match s.machine.store.text? .written limits.stack v with
      | .ok t => (.goOn, s.print (t ++ "\n"))
      | .error .tooDeep => (.exhausted, s)
      | .error (.fault f) => (.fault f, s)
  | .exit code => (.exit code, s)
  | .fault f => (.fault f, s)
  | .exhausted => (.exhausted, s)
  | .endless => (.endless, s)

/-- Runs the collected lines and this one, or waits for the brackets to be closed. -/
def programLine (limits : Limits) (line : String) (s : Shell) : Reply × Shell :=
  let source := s.pending ++ line ++ "\n"
  if 0 < openBrackets source then
    (.goOn, { s with pending := source, prompt := continuationPrompt })
  else
    let (outcome, m) := s.machine.runSource limits source fileName
    echo limits outcome (idle m)

/-- An empty line counts only where lines are collected. -/
def emptyLine (limits : Limits) (s : Shell) : Reply × Shell :=
  if s.pending = "" then (.goOn, s) else programLine limits "" s

def topics : List (String × String) := [
  ("exit", "Exits interpreter; `exit(code)` calls the built-in instead."),
  ("EOF", "Exits interpreter."),
  ("help", "List available commands with \"help\" or detailed help with \"help cmd\".")]

def helpText (topic : String) : String :=
  if topic = "" then
    "\nDocumented commands (type help <topic>):\n========================================\n" ++
      "EOF  exit  help\n\n"
  else
    match topics.lookup topic with
    | some text => text ++ "\n"
    | none => "*** No help on " ++ topic ++ "\n"

def isCommandChar (c : Char) : Bool := c.isAlphanum || c == '_'

def splitCommand (line : String) : String × String :=
  let cs := line.toList
  (String.ofList (cs.takeWhile isCommandChar),
    Text.trim (String.ofList (cs.dropWhile isCommandChar)))

/-- A question mark stands for the word `help`. -/
def expandHelp (line : String) : String :=
  match line.toList with
  | '?' :: cs => "help " ++ String.ofList cs
  | _ => line

def line (limits : Limits) (text : String) (s : Shell) : Reply × Shell :=
  let text := Text.trim text
  if text = "" then emptyLine limits s
  else
    let text := expandHelp text
    match splitCommand text with
    | ("exit", "") => (.leave, s)
    | ("exit", rest) => programLine limits ("exit " ++ rest) s
    | ("EOF", _) => (.leave, s.print "\n")
    | ("help", topic) => (.goOn, s.print (helpText topic))
    | _ => programLine limits text s

/-- The next line of the input; behind the last one there is the command that leaves. -/
def nextLine (s : Shell) : String × Shell :=
  if s.machine.input.isEmpty then ("EOF", s)
  else (s.machine.nextLine, { s with machine := s.machine.dropLine })

/-- Reads lines and does what they say until one ends the session. Each takes some of the input, so
`fuel` need not be larger than the input. -/
def session (limits : Limits) : (fuel : Nat) → Shell → Reply × Shell
  | 0, s => (.leave, s)
  | fuel + 1, s =>
    let (text, s) := (s.print s.prompt).nextLine
    match line limits text s with
    | (.goOn, s) => session limits fuel s
    | (reply, s) => (reply, s)

def interact (limits : Limits) (s : Shell) : Reply × Shell :=
  session limits (s.machine.input.length + 1) (s.print (intro ++ "\n"))

end Shell

end Lumen
