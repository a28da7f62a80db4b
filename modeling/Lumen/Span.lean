import Lumen.Json.Arithmetic
import Lumen.Position

/-!
# Spans

The part of a source text that a value, a node or a diagnostic came from. A span read from a
document may be marked by anything; that matters only where the mark is used as a place.
-/

namespace Lumen

/-- A place as a document holds it. -/
structure Place where
  file : Json
  line : Json
  col : Json
  index : Json
deriving Inhabited

/-- One end of a span. -/
inductive Mark where
  | none
  | exact (p : Position)
  /-- A place that no text has. -/
  | odd (p : Place)
  /-- Something that is no place. -/
  | other
deriving Inhabited

namespace Place

def ofJson (j : Json) : Except Fault Place := do
  let file ← j.need "file"
  let line ← j.need "line"
  let col ← j.need "col"
  let index ← j.need "index"
  .ok ⟨file, line, col, index⟩

def toJson (p : Place) : Json :=
  .object [("file", p.file), ("line", p.line), ("col", p.col), ("index", p.index)]

def ofPosition (p : Position) : Place :=
  ⟨.text p.file, .int p.line, .int p.col, .int p.index⟩

def toMark (p : Place) : Mark :=
  match p with
  | ⟨.scalar (.text file), .scalar (.int line), .scalar (.int col), .scalar (.int index)⟩ =>
    .exact ⟨file, line, col, index⟩
  | p => .odd p

def next (p : Place) : Except Fault Place := do
  let col ← p.col.plus (.int 1)
  let index ← p.index.plus (.int 1)
  .ok ⟨p.file, p.line, col, index⟩

theorem toMark_ofPosition (p : Position) : (ofPosition p).toMark = .exact p := rfl

end Place

namespace Mark

def ofPosition : Option Position → Mark
  | .none => none
  | some p => exact p

def place? : Mark → Option Place
  | exact p => some (Place.ofPosition p)
  | odd p => some p
  | none | other => .none

def isNone : Mark → Bool
  | none => true
  | _ => false

/-- The mark is a place or says that there is none. -/
def isPlain : Mark → Bool
  | other => false
  | _ => true

def next : Mark → Except Fault Mark
  | exact p => .ok (exact p.next)
  | odd p => do
    let p ← p.next
    .ok p.toMark
  | none | other => .error .malformed

def describe (m : Mark) : String :=
  match m.place? with
  | some p => p.file.display ++ ":" ++ p.line.display ++ ":" ++ p.col.display
  | .none => "None"

end Mark

/-- The part of a text that something came from. Values that a program computed may lack it. -/
structure Span where
  start : Mark
  stop : Mark
deriving Inhabited

namespace Span

def none : Span := ⟨.none, .none⟩

/-- A span with a start and no end goes one step beyond its start. -/
def make (start stop : Option Position) : Span :=
  match start, stop with
  | some p, .none => ⟨.exact p, .exact p.next⟩
  | start, stop => ⟨.ofPosition start, .ofPosition stop⟩

def isPlain (s : Span) : Bool := s.start.isPlain && s.stop.isPlain

def join (start stop : Mark) : Except Fault Span :=
  match start, stop with
  | .none, stop => .ok ⟨.none, stop⟩
  | start, .none => do
    let stop ← start.next
    .ok ⟨start, stop⟩
  | start, stop => .ok ⟨start, stop⟩

end Span

end Lumen
