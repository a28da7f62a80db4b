import Mathlib.Data.List.DropRight
import Lumen.Proofs.Token.Join

/-!
# Positions are coordinates

The lexer carries a position along and moves it over each character that it takes. Wherever it
stands, the line and the column are those that counting gives: the line ends before the place, and
the characters behind the last of them. So the tokens of a text and its refusal have true
coordinates, whatever blanks, comments and line ends stand before them.
-/

namespace Lumen

/-- The line and the column of the position are those that its index has in the text. -/
structure Position.IsPlaceIn (p : Position) (file : String) (cs : List Char) : Prop where
  file_eq : p.file = file
  index_nonneg : 0 ≤ p.index
  index_le : p.index ≤ cs.length
  /-- One more than the line ends before the index. -/
  line_eq : p.line = 1 + (cs.take p.index.toNat).count '\n'
  /-- One more than the characters behind the last line end before the index, or behind the start of
  the text. -/
  col_eq : p.col = 1 + ((cs.take p.index.toNat).rtakeWhile (· != '\n')).length

/-- The tokens of one character, of a line end and of the end of the text. -/
def TokenKind.isMark : TokenKind → Bool
  | .paren | .newline | .eof => true
  | .number | .text | .identifier | .keyword | .operator => false

structure Token.IsPlacedIn (t : Token) (file : String) (cs : List Char) : Prop where
  start : t.start.IsPlaceIn file cs
  word : t.kind.isMark = false → t.stop.IsPlaceIn file cs ∧ t.start.index < t.stop.index
  /-- A mark ends one index and one column behind its start, on the same line. -/
  mark : t.kind.isMark = true →
    t.stop = ⟨t.start.file, t.start.line, t.start.col + 1, t.start.index + 1⟩

namespace Position

variable {file : String}

theorem col_pastAll_first (file : String) (cs : List Char) :
    ((first file).pastAll cs).col = 1 + (cs.rtakeWhile (· != '\n')).length := by
  induction cs using List.reverseRecOn with
  | nil => rfl
  | append_singleton cs c ih =>
    rw [pastAll_append, pastAll_cons, pastAll_nil, past]
    split
    · next hc =>
      rw [hc, List.rtakeWhile_concat_neg _ _ _ (by decide)]
      rfl
    · next hc =>
      rw [List.rtakeWhile_concat_pos _ _ _ (by simpa using hc), List.length_append,
        List.length_singleton, next, ih, Nat.cast_add, Nat.cast_one, Int.add_assoc]

/-- The place behind the first characters of a text. -/
theorem isPlaceIn_pastAll (file : String) (before rest : List Char) :
    ((first file).pastAll before).IsPlaceIn file (before ++ rest) := by
  have hindex : ((first file).pastAll before).index = before.length := by
    rw [TokenStream.index_pastAll]
    exact Int.zero_add _
  have htake : (before ++ rest).take ((first file).pastAll before).index.toNat = before := by
    rw [hindex, Int.toNat_natCast, List.take_left]
  refine ⟨file_pastAll _ _, ?_, ?_, ?_, ?_⟩
  · omega
  · rw [hindex, List.length_append]
    omega
  · rw [htake, line_pastAll]
    rfl
  · rw [htake, col_pastAll_first]

end Position

namespace Lexeme

theorem isMark_nameKind (name : String) : (nameKind name).isMark = false := by
  unfold nameKind
  split
  · rfl
  · split <;> rfl

/-- A token starts where its lexeme does, and ends with it or one step behind its start. -/
theorem place_of_token? {c : Char} {cs taken rest : List Char} {l : Lexeme} {t : Token}
    {p q : Position} (hread : read c cs = .ok (l, taken, rest)) (ht : t ∈ l.token? p q) :
    t.start = p ∧ t.stop = if t.kind.isMark then p.next else q := by
  have hstarts := read_starts c cs
  rw [hread] at hstarts
  cases hstarts with
  | blank => cases ht
  | comment => cases ht
  | token hspells =>
    cases hspells with
    | name =>
      cases ht
      exact ⟨rfl, (if_neg (Bool.eq_false_iff.mp (isMark_nameKind _))).symm⟩
    | _ =>
      cases ht
      exact ⟨rfl, rfl⟩

end Lexeme

namespace TokenStream

open Position (first isPlaceIn_pastAll)

variable {file : String} {before rest rest' taken : List Char} {c : Char} {l : Lexeme} {t : Token}

theorem isPlacedIn_of_read (hread : Lexeme.read c rest = .ok (l, taken, rest'))
    (ht : t ∈ l.token? ((first file).pastAll before) (((first file).pastAll before).pastAll taken)) :
    t.IsPlacedIn file (before ++ c :: rest) := by
  obtain ⟨hstart, hstop⟩ := Lexeme.place_of_token? hread ht
  rw [← Position.pastAll_append] at hstop
  refine ⟨?_, fun hword => ?_, fun hmark => ?_⟩
  · rw [hstart]
    exact isPlaceIn_pastAll file before (c :: rest)
  · rw [hword, if_neg Bool.false_ne_true] at hstop
    rw [hstart, hstop, ← Lexeme.read_append hread, ← List.append_assoc]
    refine ⟨isPlaceIn_pastAll file (before ++ taken) rest', ?_⟩
    have hlength := List.length_pos_iff.mpr (Lexeme.read_ne_nil hread)
    rw [index_pastAll, index_pastAll, List.length_append]
    omega
  · rw [hmark, if_pos rfl] at hstop
    rw [hstop, hstart]
    rfl

/-- The lexer stands behind the characters that it has taken, at each token and where it is
stuck. -/
theorem scan_placed (before rest : List Char) (p : Position)
    (hp : p = (first file).pastAll before) :
    match scan p rest with
    | .ok (ts, q) => q = (first file).pastAll (before ++ rest) ∧
        ∀ t ∈ ts, t.IsPlacedIn file (before ++ rest)
    | .error d => ∃ q, d.span.start = .exact q ∧ q.IsPlaceIn file (before ++ rest) ∧
        q.index < (before ++ rest).length := by
  induction p, rest using scan.induct generalizing before with
  | case1 p =>
    rw [scan, List.append_nil]
    exact ⟨hp, List.forall_mem_nil _⟩
  | case2 p c rest complaint hread =>
    rw [scan_error hread]
    refine ⟨p, rfl, hp ▸ isPlaceIn_pastAll file before (c :: rest), ?_⟩
    rw [hp, index_pastAll, List.length_append, List.length_cons]
    exact Int.lt_of_le_of_lt (Int.le_of_eq (Int.zero_add _)) (by omega)
  | case3 p c rest l taken rest' hread =>
    rename_i ih
    have hstop : p.pastAll taken = (first file).pastAll (before ++ taken) := by
      rw [hp, Position.pastAll_append]
    have htail := ih (before ++ taken) hstop
    rw [List.append_assoc, Lexeme.read_append hread] at htail
    rw [scan_ok hread]
    revert htail
    rcases scan (p.pastAll taken) rest' with d | ⟨ts, q⟩
    · exact id
    · rintro ⟨hq, hts⟩
      refine ⟨hq, fun t ht => ?_⟩
      rcases List.mem_append.mp ht with ht | ht
      · subst hp
        exact isPlacedIn_of_read hread (Option.mem_toList.mp ht)
      · exact hts t ht

/-- A text that has tokens has them at their true coordinates, the mark of its end included, and a
text that has none is refused at those of a character in it. -/
theorem ofSource_coordinates (source file : String) :
    match ofSource source file with
    | .ok s => ∀ t ∈ s.toList, t.IsPlacedIn file source.toList
    | .error d => ∃ p, d.span.start = .exact p ∧ p.IsPlaceIn file source.toList ∧
        p.index < source.toList.length := by
  have hscan := scan_placed [] source.toList (first file) rfl
  rw [ofSource_eq_map]
  revert hscan
  rw [List.nil_append]
  rcases scan (first file) source.toList with d | ⟨ts, q⟩
  · exact id
  · rintro ⟨rfl, hts⟩ t ht
    rcases List.mem_append.mp ht with ht | ht
    · exact hts t ht
    · obtain rfl := List.mem_singleton.mp ht
      refine ⟨?_, nofun, fun _ => rfl⟩
      have hend := isPlaceIn_pastAll file source.toList []
      rw [List.append_nil] at hend
      exact hend

/-- A text over two lines, a semicolon, a comment and a blank stand before the name. -/
example : (ofSource "'\n';#\n a" "f").map (fun s => s.tokens.map fun t =>
      ((t.start.line, t.start.col), (t.stop.line, t.stop.col))) =
    .ok [((1, 1), (2, 2)), ((2, 2), (2, 3)), ((2, 4), (2, 5)), ((3, 2), (3, 3))] := by cbv

end TokenStream

end Lumen
