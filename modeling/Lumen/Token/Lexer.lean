import Lumen.Decimal.Reader
import Lumen.Diagnostic
import Lumen.Text.Blank
import Lumen.Text.Letter
import Lumen.Token

/-!
# From a text to its tokens

One lexeme at a time: a reading looks at the text from some character on and says which characters
it takes and what they are. It knows no positions. The tokens of a text are its readings one after
another, each placed by walking over the characters taken, so that nothing is lost between two
tokens and every token's place is where its characters stand.
-/

namespace Lumen

/-- What a text starts with. -/
inductive Lexeme where
  /-- Blanks and comments, which mean nothing. -/
  | skipped
  /-- A token that ends one step behind its start. -/
  | mark (kind : TokenKind) (value : Scalar)
  /-- A token that ends where its characters end. -/
  | word (kind : TokenKind) (value : Scalar)

namespace Lexeme

/-- The digits of a number and at most one point among them; `point` says that there was one. -/
def spanNumber (point : Bool) : List Char → List Char × List Char
  | [] => ([], [])
  | c :: cs =>
    if Decimal.isDigit c || (c == '.' && !point) then
      let (taken, rest) := spanNumber (point || c == '.') cs
      (c :: taken, rest)
    else ([], c :: cs)

def numberValue (cs : List Char) : Float :=
  let decimals := (cs.dropWhile (· != '.')).drop 1
  Float.ofScientific (Decimal.naturalValue (cs.filter Decimal.isDigit)) true decimals.length

/-- What a backslash and the character behind it stand for. -/
def escape : Char → List Char
  | 'n' => ['\n']
  | 't' => ['\t']
  | '\\' => ['\\']
  | '"' => ['"']
  | '\'' => ['\'']
  | c => ['\\', c]

/-- What a text holds, the characters that write it with its closing quote, and the characters
behind it; nothing if the quote is never closed. -/
def spanText (quote : Char) : List Char → Option (List Char × List Char × List Char)
  | [] => none
  | c :: cs =>
    if c = quote then some ([], [c], cs)
    else if c = '\\' then
      match cs with
      | [] => none
      | e :: es =>
        (spanText quote es).map fun (content, taken, rest) =>
          (escape e ++ content, c :: e :: taken, rest)
    else
      (spanText quote cs).map fun (content, taken, rest) => (c :: content, c :: taken, rest)

def keywords : List String :=
  ["if", "elif", "else", "for", "to", "by", "each", "in", "while", "break", "continue", "func",
    "return", "null"]

def wordOperators : List String := ["and", "or", "not"]

def operatorChars : List Char := ['+', '-', '*', '/', '%', '^', '=', '>', '<', '?', ':']

/-- The characters that an equality sign joins to one operator. -/
def joinsEquals (c : Char) : Bool := c == '=' || c == '!' || c == '>' || c == '<'

def parenChars : List Char := ['(', ')', '[', ']', '{', '}', ',']

def nameKind (name : String) : TokenKind :=
  if wordOperators.contains name then .operator
  else if keywords.contains name then .keyword
  else .identifier

/-- The lexeme at the start of the text `c :: cs`, the characters it takes and the rest. -/
def read (c : Char) (cs : List Char) : Except Complaint (Lexeme × List Char × List Char) :=
  if c = '\n' ∨ c = ';' then .ok (mark .newline .null, [c], cs)
  else if Text.isBlank c then .ok (skipped, [c], cs)
  else if c = '#' then
    .ok (skipped, c :: cs.takeWhile (· != '\n'), cs.dropWhile (· != '\n'))
  else if Decimal.isDigit c then
    let (taken, rest) := spanNumber false cs
    .ok (word .number (.float (numberValue (c :: taken))), c :: taken, rest)
  else if Text.startsName c then
    let taken := c :: cs.takeWhile Text.continuesName
    let name := String.ofList taken
    .ok (word (nameKind name) (.text name), taken, cs.dropWhile Text.continuesName)
  else if c = '"' ∨ c = '\'' then
    match spanText c cs with
    | some (content, taken, rest) =>
      .ok (word .text (.text (String.ofList content)), c :: taken, rest)
    | none => .error (.unterminatedText c)
  else if parenChars.contains c then .ok (mark .paren (.text c.toString), [c], cs)
  else
    match cs with
    | '=' :: rest =>
      if joinsEquals c then
        .ok (word .operator (.text (String.ofList [c, '='])), [c, '='], rest)
      else if operatorChars.contains c then .ok (word .operator (.text c.toString), [c], cs)
      else .error (.strayCharacter c)
    | _ =>
      if operatorChars.contains c then .ok (word .operator (.text c.toString), [c], cs)
      else .error (.strayCharacter c)

def token? (l : Lexeme) (start stop : Position) : Option Token :=
  match l with
  | skipped => none
  | mark kind value => some (Token.make kind value start none)
  | word kind value => some (Token.make kind value start (some stop))

theorem spanNumber_append (cs : List Char) (point : Bool) :
    (spanNumber point cs).1 ++ (spanNumber point cs).2 = cs := by
  induction cs generalizing point with
  | nil => rfl
  | cons c cs ih =>
    unfold spanNumber
    split
    · simp [ih]
    · rfl

theorem spanText_append {quote : Char} {cs content taken rest : List Char}
    (h : spanText quote cs = some (content, taken, rest)) : taken ++ rest = cs := by
  fun_induction spanText quote cs generalizing content taken rest with
  | case1 => simp at h
  | case2 => grind
  | case3 => simp at h
  | case4 e es _ ih =>
    obtain ⟨⟨u, v, w⟩, hu, hv⟩ := Option.map_eq_some_iff.mp h
    have := ih hu
    grind
  | case5 c cs _ _ ih =>
    obtain ⟨⟨u, v, w⟩, hu, hv⟩ := Option.map_eq_some_iff.mp h
    have := ih hu
    grind

/-- A reading takes what it says it takes. -/
theorem read_append {c : Char} {cs : List Char} {l : Lexeme} {taken rest : List Char}
    (h : read c cs = .ok (l, taken, rest)) : taken ++ rest = c :: cs := by
  have hn := spanNumber_append cs false
  have hs := List.takeWhile_append_dropWhile (p := (· != '\n')) (l := cs)
  have hm := List.takeWhile_append_dropWhile (p := Text.continuesName) (l := cs)
  have ht := @spanText_append c cs
  unfold read at h
  grind

theorem read_ne_nil {c : Char} {cs : List Char} {l : Lexeme} {taken rest : List Char}
    (h : read c cs = .ok (l, taken, rest)) : taken ≠ [] := by
  unfold read at h
  grind

theorem read_shorter {c : Char} {cs : List Char} {l : Lexeme} {taken rest : List Char}
    (h : read c cs = .ok (l, taken, rest)) : rest.length < (c :: cs).length := by
  have ha := congrArg List.length (read_append h)
  have hn := List.length_pos_iff.mpr (read_ne_nil h)
  simp only [List.length_append] at ha
  omega

end Lexeme

namespace TokenStream

/-- The tokens of a text whose first character stands at `p`, and where the text ends. -/
def scan (p : Position) : List Char → Except Diagnostic (List Token × Position)
  | [] => .ok ([], p)
  | c :: cs =>
    match _h : Lexeme.read c cs with
    | .error complaint => .error (Diagnostic.between complaint (some p) none)
    | .ok (lexeme, taken, rest) => do
      let stop := p.pastAll taken
      let (tokens, last) ← scan stop rest
      .ok ((lexeme.token? p stop).toList ++ tokens, last)
termination_by cs => cs.length
decreasing_by exact Lexeme.read_shorter _h

def ofSource (source : String) (file : String) : Except Diagnostic TokenStream := do
  let (tokens, last) ← scan (Position.first file) source.toList
  .ok ⟨tokens, Token.make .eof .null last none⟩

end TokenStream

/-- The number of brackets that a source leaves open. A source that has no tokens leaves none, so
that its error is reported and no more input is waited for. -/
def openBrackets (source : String) : Int :=
  match TokenStream.ofSource source "<stdin>" with
  | .ok s => s.openBrackets
  | .error _ => 0

end Lumen
