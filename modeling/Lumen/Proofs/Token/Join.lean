import Lumen.Proofs.Token.Tiling

/-!
# Texts with a line end between them

A text that is read to its end leaves nothing open at the line end behind it. What stands below the
line end is read as if it stood alone, with the same tokens or the same refusal, only further down.
So the brackets that two texts leave open add up.
-/

namespace Lumen

variable {f g : Position → Position}

def Mark.move (f : Position → Position) : Mark → Mark
  | exact p => exact (f p)
  | m => m

def Span.move (f : Position → Position) (s : Span) : Span := ⟨s.start.move f, s.stop.move f⟩

def Diagnostic.move (f : Position → Position) (d : Diagnostic) : Diagnostic :=
  ⟨d.complaint, d.span.move f⟩

theorem Position.line_pastAll (p : Position) (cs : List Char) :
    (p.pastAll cs).line = p.line + cs.count '\n' := by
  induction cs generalizing p with
  | nil => simp
  | cons c cs ih =>
    rw [pastAll_cons, ih, past, List.count_cons]
    split
    · next hc =>
      subst hc
      simp only [nextLine, beq_self_eq_true, if_true]
      omega
    · next hc => simp [next, hc]

theorem Position.file_pastAll (p : Position) (cs : List Char) : (p.pastAll cs).file = p.file := by
  induction cs generalizing p with
  | nil => rfl
  | cons c cs ih => rw [pastAll_cons, ih, past_file]

namespace TokenStream

def move (f : Position → Position) (s : TokenStream) : TokenStream :=
  ⟨s.tokens.map (Token.move f), s.eof.move f⟩

/-- The tokens of both with a newline where the first text ends. -/
def join (s t : TokenStream) : TokenStream :=
  ⟨s.tokens ++ Token.make .newline .null s.eof.start none :: t.tokens, t.eof⟩

variable {p q : Position} {cs ds : List Char} {ts : List Token}

theorem openBrackets_move (s : TokenStream) : (s.move f).openBrackets = s.openBrackets := by
  simp only [openBrackets, move, List.map_map]
  rfl

theorem openBrackets_join (s t : TokenStream) :
    (s.join t).openBrackets = s.openBrackets + t.openBrackets := by
  have hnewline : (Token.make .newline .null s.eof.start none).bracketStep = 0 := rfl
  change ((s.tokens ++ _ :: t.tokens).map Token.bracketStep).sum =
    (s.tokens.map Token.bracketStep).sum + (t.tokens.map Token.bracketStep).sum
  rw [List.map_append, List.sum_append, List.map_cons, List.sum_cons, hnewline, Int.zero_add]

/-- The tokens end where the text ends. -/
theorem Scans.stop_eq (h : Scans p cs ts q) : q = p.pastAll cs := by
  induction h with
  | nil => rfl
  | cons hread _ ih => rw [← Lexeme.read_append hread, Position.pastAll_append, ← ih]

/-- What is read does not depend on where it stands. -/
theorem scan_move (hg : ∀ p c, g (p.past c) = (g p).past c) (p : Position) (cs : List Char) :
    scan (g p) cs =
      match scan p cs with
      | .ok (ts, q) => .ok (ts.map (Token.move g), g q)
      | .error d => .error (d.move g) := by
  -- One case for each way that a scan goes: the text is over, is refused, or goes on behind a lexeme.
  induction p, cs using scan.induct with
  | case1 p =>
    rw [scan, scan]
    rfl
  | case2 p c cs complaint hread =>
    have hnext : g p.next = (g p).next := hg p ' '
    rw [scan_error hread, scan_error hread]
    simp only [Diagnostic.move, Span.move, Diagnostic.between, Span.make, Mark.move, hnext]
  | case3 p c cs l taken rest hread =>
    rename_i ih
    rw [scan_ok hread, scan_ok hread, ← pastAll_move hg, ih, token?_move hg, Option.toList_map]
    rcases scan (p.pastAll taken) rest with d | ⟨ts, q⟩
    · rfl
    · simp only [Except.map, List.map_append]

/-- Behind a text that is read to its end there may be a line end and any other text. -/
theorem scan_join (h : Scans p cs ts q) (ds : List Char) :
    scan p (cs ++ '\n' :: ds) = (scan q.nextLine ds).map fun (us, r) =>
      (ts ++ Token.make .newline .null q none :: us, r) := by
  induction h with
  | @nil p => rw [List.nil_append, scan_ok (Lexeme.read_lineEnd ds)]; rfl
  | @cons p c cs l taken rest ts q hread _ ih =>
    rw [List.cons_append, scan_ok (Lexeme.read_newline hread ds), ih]
    rcases scan q.nextLine ds with d | ⟨us, r⟩
    · rfl
    · simp only [Except.map, List.append_assoc]

theorem ofSource_eq_map (source file : String) :
    ofSource source file = (scan (.first file) source.toList).map fun (ts, q) =>
      ⟨ts, Token.make .eof .null q none⟩ := by
  unfold ofSource
  cases scan (Position.first file) source.toList <;> rfl

theorem scans_of_ofSource {source file : String} {s : TokenStream}
    (h : ofSource source file = .ok s) :
    ∃ q, Scans (.first file) source.toList s.tokens q ∧ s.eof = Token.make .eof .null q none := by
  rw [ofSource_eq_map] at h
  rcases hscan : scan (.first file) source.toList with d | ⟨ts, q⟩
  · rw [hscan] at h
    cases h
  · rw [hscan] at h
    cases h
    exact ⟨q, scans_of_scan hscan, rfl⟩

/-- The file that a text stands in does not matter for its brackets. -/
theorem openBrackets_eq {source file : String} {s : TokenStream}
    (h : ofSource source file = .ok s) :
    Lumen.openBrackets source = s.openBrackets := by
  obtain ⟨q, hs, -⟩ := scans_of_ofSource h
  have hmove := hs.move (Position.further_past "<stdin>" 0 0)
  rw [Lumen.openBrackets, ofSource_eq_map]
  have hfirst : Position.further "<stdin>" 0 0 (.first file) = .first "<stdin>" := rfl
  rw [hfirst] at hmove
  rw [hmove.scan_eq]
  simp only [Except.map, openBrackets, List.map_map]
  rfl

/-- A text on the lines below starts where the line end leads. -/
theorem further_first (file : String) (cs : List Char) :
    Position.further file (cs.count '\n' + 1) (cs.length + 1) (.first file) =
      ((Position.first file).pastAll cs).nextLine := by
  have hline := Position.line_pastAll (.first file) cs
  have hindex := index_pastAll (.first file) cs
  have hfile := Position.file_pastAll (.first file) cs
  simp only [Position.further, Position.nextLine, hline, hindex, hfile]
  simp only [Position.first, Position.start, Position.next, Position.mk.injEq, true_and]
  omega

/-- A text that has tokens may be followed by a line end and any other text. The whole then has the
tokens of both with a newline between them, or is refused as the text below is; what stands below is
moved down by the lines and the characters above it. The brackets that the two leave open add up. -/
theorem ofSource_join {text file : String} {s : TokenStream} (h : ofSource text file = .ok s)
    (below : String) :
    let down := Position.further file (text.toList.count '\n' + 1) (text.toList.length + 1)
    match ofSource below file with
    | .ok t => ofSource (text ++ "\n" ++ below) file = .ok (s.join (t.move down)) ∧
        Lumen.openBrackets (text ++ "\n" ++ below) =
          Lumen.openBrackets text + Lumen.openBrackets below
    | .error d => ofSource (text ++ "\n" ++ below) file = .error (d.move down) := by
  intro down
  obtain ⟨q, hs, heof⟩ := scans_of_ofSource h
  have hdown : down (.first file) = q.nextLine := by
    rw [hs.stop_eq]
    exact further_first file text.toList
  have hjoin : ofSource (text ++ "\n" ++ below) file =
      match ofSource below file with
      | .ok t => .ok (s.join (t.move down))
      | .error d => .error (d.move down) := by
    have htoList : (text ++ "\n" ++ below).toList = text.toList ++ '\n' :: below.toList := by simp
    rw [ofSource_eq_map, ofSource_eq_map, htoList, scan_join hs, ← hdown,
      scan_move (Position.further_past file _ _)]
    rcases scan (.first file) below.toList with d | ⟨us, r⟩
    · rfl
    · have hend : down r.next = (down r).next := Position.further_past file _ _ r ' '
      simp only [Except.map, join, move, heof, Token.make, Token.move, Option.getD_none, hend]
      rfl
  cases ht : ofSource below file with
  | error d =>
    rw [ht] at hjoin
    exact hjoin
  | ok t =>
    rw [ht] at hjoin
    refine ⟨hjoin, ?_⟩
    rw [openBrackets_eq hjoin, openBrackets_eq h, openBrackets_eq ht, openBrackets_join,
      openBrackets_move]

/-- A text that ends in a comment, above a closing bracket and above a quote without an end. -/
theorem ofSource_join_comment :
    let place (line col index : Int) : Position := ⟨"f", line, col, index⟩
    let bracket (b : String) (p q : Position) : Token := ⟨.paren, .text b, p, q⟩
    let s : TokenStream := ⟨[bracket "(" (place 1 1 0) (place 1 2 1)],
      ⟨.eof, .null, place 1 4 3, place 1 5 4⟩⟩
    ofSource "(#)" "f" = .ok s ∧
      ofSource ("(#)" ++ "\n" ++ ")") "f" = .ok ⟨[bracket "(" (place 1 1 0) (place 1 2 1),
        ⟨.newline, .null, place 1 4 3, place 1 5 4⟩, bracket ")" (place 2 1 4) (place 2 2 5)],
        ⟨.eof, .null, place 2 2 5, place 2 3 6⟩⟩ ∧
      Lumen.openBrackets ("(#)" ++ "\n" ++ ")") = 0 ∧
      ofSource ("(#)" ++ "\n" ++ "'") "f" =
        .error ⟨.unterminatedText '\'', ⟨.exact (place 2 1 4), .exact (place 2 2 5)⟩⟩ := by
  intro place bracket s
  have h : ofSource "(#)" "f" = .ok s := by cbv
  have hclosing : ofSource ")" "f" = .ok ⟨[bracket ")" (place 1 1 0) (place 1 2 1)],
      ⟨.eof, .null, place 1 2 1, place 1 3 2⟩⟩ := by cbv
  have hquote : ofSource "'" "f" =
      .error ⟨.unterminatedText '\'', ⟨.exact (place 1 1 0), .exact (place 1 2 1)⟩⟩ := by cbv
  have hbelow := ofSource_join h ")"
  have hbrackets : Lumen.openBrackets "(#)" + Lumen.openBrackets ")" = 0 := by
    rw [openBrackets_eq h, openBrackets_eq hclosing]
    rfl
  have hrefused := ofSource_join h "'"
  rw [hclosing] at hbelow
  rw [hquote] at hrefused
  exact ⟨h, hbelow.1, hbelow.2.trans hbrackets, hrefused⟩

end TokenStream

end Lumen
