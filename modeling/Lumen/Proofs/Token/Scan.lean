import Lumen.Proofs.Node.Move
import Lumen.Token.Lexer

/-!
# Texts one after another

No lexeme goes on behind a line end, so the tokens of two texts with a line end between them are
those of the first text, a newline and those of the second text further down. Where a text stands
moves its tokens and changes nothing else about them.
-/

namespace Lumen

def Position.further (file : String) (lines chars : Int) (p : Position) : Position :=
  ⟨file, p.line + lines, p.col, p.index + chars⟩

theorem Position.further_past (file : String) (lines chars : Int) (p : Position) (c : Char) :
    further file lines chars (p.past c) = (further file lines chars p).past c := by
  simp only [further, past, nextLine, next]
  split <;> simp only [Position.mk.injEq, true_and] <;> omega

namespace Lexeme

variable {cs rest t : List Char}

theorem takeWhile_newline (p : Char → Bool) (hp : p '\n' = false) (cs t : List Char) :
    (cs ++ '\n' :: t).takeWhile p = cs.takeWhile p := by
  induction cs with
  | nil => rw [List.nil_append, List.takeWhile_cons_of_neg (by simp [hp]), List.takeWhile_nil]
  | cons c cs ih => rw [List.cons_append, List.takeWhile_cons, List.takeWhile_cons, ih]

theorem dropWhile_newline (p : Char → Bool) (hp : p '\n' = false) (cs t : List Char) :
    (cs ++ '\n' :: t).dropWhile p = cs.dropWhile p ++ '\n' :: t := by
  induction cs with
  | nil => rw [List.nil_append, List.dropWhile_cons_of_neg (by simp [hp])]; rfl
  | cons c cs ih =>
    rw [List.cons_append, List.dropWhile_cons, List.dropWhile_cons, ih]
    split <;> rfl

theorem spanNumber_newline (point : Bool) (cs t : List Char) :
    spanNumber point (cs ++ '\n' :: t) =
      ((spanNumber point cs).1, (spanNumber point cs).2 ++ '\n' :: t) := by
  induction cs generalizing point with
  | nil => rfl
  | cons c cs ih =>
    rw [List.cons_append, spanNumber, spanNumber]
    split
    · rw [ih]
    · rfl

theorem spanText_continued {quote : Char} {content taken : List Char}
    (h : spanText quote cs = some (content, taken, rest)) (t : List Char) :
    spanText quote (cs ++ t) = some (content, taken, rest ++ t) := by
  fun_induction spanText quote cs generalizing content taken rest with
  | case1 => cases h
  | case2 cs =>
    cases h
    rw [List.cons_append]
    unfold spanText
    rw [if_pos rfl]
  | case3 => cases h
  | case4 e es hquote ih =>
    obtain ⟨⟨u, v, w⟩, hes, hresult⟩ := Option.map_eq_some_iff.mp h
    cases hresult
    rw [List.cons_append]
    unfold spanText
    rw [if_neg hquote, if_pos rfl, List.cons_append]
    dsimp only
    rw [ih hes]
    rfl
  | case5 c cs hquote hescape ih =>
    obtain ⟨⟨u, v, w⟩, hcs, hresult⟩ := Option.map_eq_some_iff.mp h
    cases hresult
    rw [List.cons_append]
    unfold spanText
    rw [if_neg hquote, if_neg hescape, ih hcs]
    rfl

/-- A line end behind the text is behind the lexeme as well. -/
theorem read_newline {c : Char} {l : Lexeme} {taken : List Char}
    (h : read c cs = .ok (l, taken, rest)) (t : List Char) :
    read c (cs ++ '\n' :: t) = .ok (l, taken, rest ++ '\n' :: t) := by
  have hname : Text.continuesName '\n' = false := by decide
  unfold read at h ⊢
  -- One case for each kind of lexeme, in the order in which they are tried. A lexeme ends before the
  -- line end, or it is a quoted text that has been closed before.
  split at h
  · next hc =>
    cases h
    rw [if_pos hc]
  next hc =>
  rw [if_neg hc]
  split at h
  · next hblank =>
    cases h
    rw [if_pos hblank]
  next hblank =>
  rw [if_neg hblank]
  split at h
  · next hsharp =>
    cases h
    rw [if_pos hsharp, takeWhile_newline (· != '\n') rfl, dropWhile_newline (· != '\n') rfl]
  next hsharp =>
  rw [if_neg hsharp]
  split at h
  · next hdigit =>
    cases h
    rw [if_pos hdigit, spanNumber_newline]
  next hdigit =>
  rw [if_neg hdigit]
  split at h
  · next hletter =>
    cases h
    rw [if_pos hletter, takeWhile_newline _ hname, dropWhile_newline _ hname]
  next hletter =>
  rw [if_neg hletter]
  split at h
  · next hquote =>
    rw [if_pos hquote]
    split at h
    · next hspan =>
      cases h
      rw [spanText_continued hspan]
    · cases h
  next hquote =>
  rw [if_neg hquote]
  split at h
  · next hparen =>
    cases h
    rw [if_pos hparen]
  next hparen =>
  rw [if_neg hparen]
  -- Only an equality sign joins an operator, so a line end is as good as the end of the text.
  cases cs with
  | nil =>
    dsimp only at h
    split at h
    · next hoperator =>
      cases h
      exact if_pos hoperator
    · cases h
  | cons d ds =>
    rw [List.cons_append]
    split at h
    · next ds heq =>
      cases heq
      split at h
      · next hjoins =>
        cases h
        exact if_pos hjoins
      · next hjoins =>
        split at h
        · next hoperator =>
          cases h
          exact (if_neg hjoins).trans (if_pos hoperator)
        · cases h
    · next hne =>
      split at h
      · next hoperator =>
        cases h
        split
        · next heq =>
          cases heq
          exact (hne _ rfl).elim
        · rw [if_pos hoperator]
          rfl
      · cases h

theorem read_lineEnd (cs : List Char) : read '\n' cs = .ok (mark .newline .null, ['\n'], cs) := by
  unfold read
  rw [if_pos (.inl rfl)]

/-- No text has the mark of its end in it. -/
theorem kind_ne_eof {c : Char} {l : Lexeme} {taken : List Char} {p q : Position} {u : Token}
    (h : read c cs = .ok (l, taken, rest)) (hu : u ∈ l.token? p q) : u.kind ≠ .eof := by
  unfold read at h
  grind [token?, nameKind, Token.make]

end Lexeme

namespace TokenStream

/-- The characters `cs` from `p` on are the tokens `ts`, and end at `q`. -/
inductive Scans : Position → List Char → List Token → Position → Prop where
  | nil {p} : Scans p [] [] p
  | cons {p c cs l taken rest ts q} : Lexeme.read c cs = .ok (l, taken, rest) →
      Scans (p.pastAll taken) rest ts q →
      Scans p (c :: cs) ((l.token? p (p.pastAll taken)).toList ++ ts) q

variable {p q r : Position} {cs ds : List Char} {ts us : List Token} {g : Position → Position}

theorem Scans.scan_eq (h : Scans p cs ts q) : scan p cs = .ok (ts, q) := by
  induction h with
  | nil => rw [scan]
  | cons hread _ ih =>
    rw [scan]
    split
    · next heq => cases hread.symm.trans heq
    · next heq =>
      cases hread.symm.trans heq
      dsimp only
      rw [ih]
      rfl

theorem Scans.ofSource_eq {source file : String} (h : Scans (.first file) source.toList ts q) :
    ofSource source file = .ok ⟨ts, Token.make .eof .null q none⟩ := by
  rw [ofSource, h.scan_eq]
  rfl

theorem scans_of_scan (h : scan p cs = .ok (ts, q)) : Scans p cs ts q := by
  induction p, cs using scan.induct generalizing ts q with
  | case1 =>
    rw [scan] at h
    cases h
    exact .nil
  | case2 p c cs complaint hread =>
    rw [scan] at h
    split at h
    · cases h
    · next heq => cases hread.symm.trans heq
  | case3 p c cs l taken rest hread stop =>
    rename_i ih
    rw [scan] at h
    split at h
    · next heq => cases hread.symm.trans heq
    next heq =>
    cases hread.symm.trans heq
    cases hrest : scan (p.pastAll taken) rest with
    | error d =>
      dsimp only at h
      rw [hrest] at h
      cases h
    | ok result =>
      dsimp only at h
      rw [hrest] at h
      cases h
      exact .cons hread (ih hrest)

theorem Scans.kind_ne_eof (h : Scans p cs ts q) : ∀ t ∈ ts, t.kind ≠ .eof := by
  induction h with
  | nil => exact fun t ht => (List.not_mem_nil ht).elim
  | cons hread _ ih =>
    intro t ht
    rcases List.mem_append.mp ht with ht | ht
    · exact Lexeme.kind_ne_eof hread (Option.mem_toList.mp ht)
    · exact ih t ht

theorem Scans.newline (h : Scans p cs ts q) (hds : Scans q.nextLine ds us r) :
    Scans p (cs ++ '\n' :: ds) (ts ++ Token.make .newline .null q none :: us) r := by
  induction h with
  | @nil p =>
    have hpast : p.pastAll ['\n'] = p.nextLine := by
      rw [Position.pastAll_cons, Position.pastAll_nil, Position.past, if_pos rfl]
    rw [← hpast] at hds
    exact .cons (Lexeme.read_lineEnd ds) hds
  | cons hread _ ih =>
    rw [List.append_assoc]
    exact .cons (Lexeme.read_newline hread ds) (ih hds)

theorem pastAll_move (hg : ∀ p c, g (p.past c) = (g p).past c) (p : Position) (cs : List Char) :
    g (p.pastAll cs) = (g p).pastAll cs := by
  induction cs generalizing p with
  | nil => rfl
  | cons c cs ih => rw [Position.pastAll_cons, Position.pastAll_cons, ih, hg]

theorem token?_move (hg : ∀ p c, g (p.past c) = (g p).past c) (l : Lexeme) (p q : Position) :
    l.token? (g p) (g q) = (l.token? p q).map (Token.move g) := by
  cases l with
  | skipped => rfl
  | mark kind value =>
    have hnext : g p.next = (g p).next := hg p ' '
    simp only [Lexeme.token?, Token.make, Token.move, Option.map_some, Option.getD_none, hnext]
  | word kind value => rfl

theorem Scans.move (hg : ∀ p c, g (p.past c) = (g p).past c) (h : Scans p cs ts q) :
    Scans (g p) cs (ts.map (Token.move g)) (g q) := by
  induction h with
  | nil => exact .nil
  | @cons p c cs l taken rest ts q hread _ ih =>
    rw [pastAll_move hg] at ih
    have hmoved := Scans.cons hread ih
    rw [List.map_append, ← Option.toList_map, ← token?_move hg, pastAll_move hg]
    exact hmoved

/-- The tokens of two texts with a line end between them, each where it stands in the whole. -/
theorem Scans.append {file file' : String} (h : Scans (.first file) cs ts q)
    (h' : Scans (.first file') ds us r) (whole : String) :
    ∃ g g' : Position → Position, ∃ r', Scans (.first whole) (cs ++ '\n' :: ds)
      (ts.map (Token.move g) ++ Token.make .newline .null (g q) none :: us.map (Token.move g'))
      r' := by
  have h := h.move (Position.further_past whole 0 0)
  have h' := h'.move (Position.further_past whole (q.line + 0) (q.index + 0 + 1))
  have hnext : Position.further whole (q.line + 0) (q.index + 0 + 1) (.first file') =
      (Position.further whole 0 0 q).nextLine := by
    simp only [Position.further, Position.first, Position.start, Position.next, Position.nextLine,
      Position.mk.injEq, true_and]
    omega
  rw [hnext] at h'
  exact ⟨_, _, _, h.newline h'⟩

end TokenStream

end Lumen
