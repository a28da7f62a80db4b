import Lumen.Span

/-!
# Tokens

The words of a program with the place each came from. A token stream keeps the token that marks
the end of the text apart from the others, so that there is always exactly one.
-/

namespace Lumen

inductive TokenKind where
  | number
  | text
  | identifier
  | keyword
  | operator
  | paren
  | newline
  | eof
deriving DecidableEq, Repr, Inhabited

namespace TokenKind

def all : List TokenKind :=
  [number, text, identifier, keyword, operator, paren, newline, eof]

def label : TokenKind → String
  | number => "Number"
  | text => "String"
  | identifier => "Identifier"
  | keyword => "Keyword"
  | operator => "Operator"
  | paren => "Paren"
  | newline => "Newline"
  | eof => "EOF"

def name : TokenKind → String
  | number => "NUMBER"
  | text => "STRING"
  | identifier => "IDENTIFIER"
  | keyword => "KEYWORD"
  | operator => "OPERATOR"
  | paren => "PAREN"
  | newline => "NEWLINE"
  | eof => "EOF"

def ofName? (s : String) : Option TokenKind := all.find? (·.name == s)

theorem ofName?_name (k : TokenKind) : ofName? k.name = some k := by cases k <;> decide

end TokenKind

structure Token where
  kind : TokenKind
  value : Scalar
  start : Position
  stop : Position
deriving Inhabited

namespace Token

/-- A token of which only the start is known ends one step behind it. -/
def make (kind : TokenKind) (value : Scalar) (start : Position) (stop : Option Position) : Token :=
  ⟨kind, value, start, stop.getD start.next⟩

def span (t : Token) : Span := ⟨.exact t.start, .exact t.stop⟩

def is (t : Token) (kind : TokenKind) (s : String) : Bool := t.kind == kind && t.value.isText s

/-- The token is of the kind and, if a value is asked for, has it. -/
def agrees (t : Token) (kind : TokenKind) (value : Scalar) : Bool :=
  t.kind == kind &&
    match value with
    | .null => true
    | v => t.value.equals v

def display (t : Token) : String :=
  match t.value with
  | .null => "[" ++ t.kind.label ++ "]"
  | v => "[" ++ t.kind.label ++ ": " ++ v.display ++ "]"

def isNewline (t : Token) : Bool := t.kind == .newline

def openBrace : String := "\x7b"

def closeBrace : String := "\x7d"

def isOpening (t : Token) : Bool :=
  t.is .paren "(" || t.is .paren "[" || t.is .paren openBrace

def isClosing (t : Token) : Bool :=
  t.is .paren ")" || t.is .paren "]" || t.is .paren closeBrace

/-- One for an opening bracket, minus one for a closing one. -/
def bracketStep (t : Token) : Int :=
  if t.isOpening then 1 else if t.isClosing then -1 else 0

end Token

/-- The tokens of a text and the mark of its end. -/
structure TokenStream where
  tokens : List Token
  eof : Token

namespace TokenStream

def toList (s : TokenStream) : List Token := s.tokens ++ [s.eof]

/-- How many more brackets the text opens than it closes. -/
def openBrackets (s : TokenStream) : Int := (s.tokens.map Token.bracketStep).foldr (· + ·) 0

end TokenStream

end Lumen
