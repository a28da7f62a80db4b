import Lumen.Json

/-!
# Writing documents

Two layouts of the same document: on one line without blanks, and with one item on each line.
Characters stand as they are unless they have to be escaped.
-/

namespace Lumen.Json

def escapeChar (c : Char) : String :=
  match c with
  | '"' => "\\\""
  | '\\' => "\\\\"
  | '\n' => "\\n"
  | '\r' => "\\r"
  | '\t' => "\\t"
  | '\x08' => "\\b"
  | '\x0c' => "\\f"
  | c => if c.toNat < 0x20 then "\\u" ++ Text.hexDigits 4 c.toNat else c.toString

def writeText (s : String) : String := "\"" ++ String.join (s.toList.map escapeChar) ++ "\""

def writeFloat (x : Float) : String :=
  if x.isNaN then "NaN"
  else if x.isInf then (if x < 0 then "-Infinity" else "Infinity")
  else Decimal.floatText x

def writeScalar : Scalar → String
  | .null => "null"
  | .bool b => if b then "true" else "false"
  | .int i => toString i
  | .float x => writeFloat x
  | .text s => writeText s

def enclose (opening closing : String) (indent : Nat) (lines : List String) : String :=
  match lines with
  | [] => opening ++ closing
  | lines =>
    let margin := String.ofList (List.replicate (indent + 2) ' ')
    opening ++ "\n" ++ String.intercalate ",\n" (lines.map (margin ++ ·)) ++ "\n" ++
      String.ofList (List.replicate indent ' ') ++ closing

mutual

/-- The document with one item on each line; lines are indented by two blanks for each level. -/
def writeIndented (indent : Nat) : Json → String
  | scalar s => writeScalar s
  | list items => enclose "[" "]" indent (writeItems (indent + 2) items)
  | object fields => enclose "\x7b" "\x7d" indent (writeFields (indent + 2) fields)

def writeItems (indent : Nat) : List Json → List String
  | [] => []
  | j :: js => writeIndented indent j :: writeItems indent js

def writeFields (indent : Nat) : List (String × Json) → List String
  | [] => []
  | (k, j) :: fs => (writeText k ++ ": " ++ writeIndented indent j) :: writeFields indent fs

end

mutual

def writeLine : Json → String
  | scalar s => writeScalar s
  | list items => "[" ++ String.intercalate "," (writeLineItems items) ++ "]"
  | object fields => "\x7b" ++ String.intercalate "," (writeLineFields fields) ++ "\x7d"

def writeLineItems : List Json → List String
  | [] => []
  | j :: js => writeLine j :: writeLineItems js

def writeLineFields : List (String × Json) → List String
  | [] => []
  | (k, j) :: fs => (writeText k ++ ":" ++ writeLine j) :: writeLineFields fs

end

end Lumen.Json
