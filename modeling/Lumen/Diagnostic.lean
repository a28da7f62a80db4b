import Lumen.Operator
import Lumen.Span
import Lumen.Value.Kind

/-!
# Diagnostics

What the lexer, the parser and the evaluator refuse, with the wording of each refusal in one place,
and the place in the source that it is about.
-/

namespace Lumen

namespace Diagnostic

/-- The four headings under which a diagnostic is reported. -/
inductive Heading where
  | illegalCharacter
  | invalidSyntax
  | runtime
  | general
deriving DecidableEq, Repr

def Heading.name : Heading → String
  | illegalCharacter => "Illigal Char"
  | invalidSyntax => "Invalid Syntax"
  | runtime => "Runtime Error"
  | general => "Error"

end Diagnostic

/-- The causes of a diagnostic. -/
inductive Complaint where
  /-- A character that starts no token. -/
  | strayCharacter (c : Char)
  | unterminatedText (quote : Char)
  /-- Another token was needed here. -/
  | expected (what : String)
  | outsideLoop (word : String)
  | outsideFunction (word : String)
  | unexpectedEnd
  | unexpectedToken (token : String)
  /-- The source is nested deeper than the parser's limit. -/
  | nestingExceeded
  | illegalOperation (symbol : String) (kind : Value.Kind)
  | unexpectedOperator (symbol : String)
  | listConcatenation
  | textConcatenation
  | expectedNumber
  | expectedFinite
  | divisionByZero
  | incomparable (left right : Value.Kind)
  | notCallable (kind : Value.Kind)
  | indexOutOfRange (position : Int) (length : Nat)
  | invalidSlice (start stop : Int)
  | indexArguments
  | indexNotNumber
  | upToNotNumber
  | notIndexable (kind : Value.Kind)
  | notAssignable
  | boundNotNumber (word : String)
  | zeroStep
  | notIterable
  /-- The evaluation is nested deeper than the evaluator's limit. -/
  | recursionExceeded
  | argumentCount (name : String) (needed given : Nat)
  | tooManyArguments (name : String) (given : Nat)
  | tooFewArguments (name : String)
  | onlyTexts (name : String)
  | onlyLists (name : String)
  | onlyTextsOrLists (name : String)
  | emptyList (name : String)
  | exitNotNumber
  | exitNotFinite
  /-- A diagnostic made by hand. -/
  | custom (heading : Diagnostic.Heading) (details : String)
deriving DecidableEq, Repr

namespace Complaint

open Diagnostic.Heading

def heading : Complaint → Diagnostic.Heading
  | strayCharacter _ | unterminatedText _ => illegalCharacter
  | expected _ | outsideLoop _ | outsideFunction _ | unexpectedEnd | unexpectedToken _
  | nestingExceeded | illegalOperation .. | unexpectedOperator _ | listConcatenation =>
    invalidSyntax
  | custom h _ => h
  | _ => runtime

def details : Complaint → String
  | strayCharacter c => "'" ++ c.toString ++ "'"
  | unterminatedText q => "'" ++ q.toString ++ "' (unterminated string)"
  | expected what => "Expected " ++ what
  | outsideLoop word => "'" ++ word ++ "' outside of a loop"
  | outsideFunction word => "'" ++ word ++ "' outside of a function"
  | unexpectedEnd => "Unexpected end of input"
  | unexpectedToken token => "Unexpected token '" ++ token ++ "'"
  | nestingExceeded => "Maximum nesting depth exceeded"
  | illegalOperation symbol kind =>
    "Invalid '" ++ symbol ++ "' operation on a " ++ kind.name
  | unexpectedOperator symbol => "Unexpected operator '" ++ symbol ++ "'"
  | listConcatenation => "Only lists can be concatenated with a list"
  | textConcatenation => "Only strings can be concatenated with a string"
  | expectedNumber => "Expected a number"
  | expectedFinite => "Expected a finite number"
  | divisionByZero => "Can't divide by zero"
  | incomparable left right =>
    if left = right then "Can't compare " ++ left.name ++ "s"
    else "Can't compare a " ++ left.name ++ " with a " ++ right.name
  | notCallable kind => "Can't call a " ++ kind.name
  | indexOutOfRange position length =>
    "Index out of range (" ++ toString position ++ ") with length of " ++ toString length
  | invalidSlice start stop =>
    "Invalid slice (" ++ toString start ++ ":" ++ toString stop ++ ")"
  | indexArguments => "Expected an index or start & end indexes"
  | indexNotNumber => "Expected a number for the index"
  | upToNotNumber => "Expected a number for the to-index"
  | notIndexable kind => "Can't index into a " ++ kind.name
  | notAssignable => "Expected a list to assign its element value"
  | boundNotNumber word => "Expected a number after '" ++ word ++ "'"
  | zeroStep => "Step can't be zero"
  | notIterable => "Expected a list in 'each'"
  | recursionExceeded => "Maximum recursion depth exceeded"
  | argumentCount name needed given =>
    name ++ "() expects " ++ toString needed ++ " argument(s), got " ++ toString given
  | tooManyArguments name given =>
    name ++ "() expects at most 1 argument, got " ++ toString given
  | tooFewArguments name => name ++ "() expects at least 2 arguments"
  | onlyTexts name => name ++ "() only works for strings"
  | onlyLists name => name ++ "() only works for lists"
  | onlyTextsOrLists name => name ++ "() only works for strings or lists"
  | emptyList name => "Can't " ++ name ++ " an empty list"
  | exitNotNumber => "exit() expects a number"
  | exitNotFinite => "exit() expects a finite number"
  | custom _ details => details

end Complaint

structure Diagnostic where
  complaint : Complaint
  span : Span

namespace Diagnostic

def between (c : Complaint) (start stop : Option Position) : Diagnostic := ⟨c, Span.make start stop⟩

def onSpan (c : Complaint) (s : Span) : Diagnostic := ⟨c, s⟩

def unplaced (c : Complaint) : Diagnostic := ⟨c, Span.none⟩

/-- A diagnostic without a start gets the place of the node that met it. -/
def isUnplaced (d : Diagnostic) : Bool := d.span.start.isNone

def heading (d : Diagnostic) : Heading := d.complaint.heading

def details (d : Diagnostic) : String := d.complaint.details

def red : String := "\x1b[31m"

def reset : String := "\x1b[0m"

def render (d : Diagnostic) : String :=
  let headline := red ++ "Error(" ++ d.heading.name ++ "): " ++ d.details ++ "."
  match d.span.start.place?, d.span.stop.place? with
  | some p, some q =>
    headline ++ "\nFile: " ++ p.file.display ++ " - Line: " ++ p.line.display ++ " - Col: " ++
      p.col.display ++ ":" ++ q.col.display
  | _, _ => headline

end Diagnostic

end Lumen
