import Lumen.Proofs.Decimal.Digits
import Lumen.Proofs.Literal
import Lumen.Proofs.Parser.RoundTrip
import Lumen.Proofs.Token.Scan
import Lumen.Proofs.Token.Spelling

/-!
# Scanning literals

The characters of a literal are read as its words, whatever has been read before, if a comma, a
closing bracket or the end of the text stands behind them. A text is closed by the quote that was
put behind it and by none before, for every quote and every backslash in it has a backslash of its
own in front.
-/

namespace Lumen

open Decimal (isDigit_of_mem_toDigits toList_toString_ofNat toList_toString_negSucc)
open Node (Spells)
open TokenStream (Scans)

variable {p q : Position} {c : Char} {cs taken rest : List Char} {ts us : List Token}

def EndsLiteral (rest : List Char) : Prop := ∀ c ∈ rest.head?, c = ',' ∨ c = ']'

theorem endsLiteral_cons (h : c = ',' ∨ c = ']') : EndsLiteral (c :: rest) := by
  rintro d ⟨⟩
  exact h

theorem endsLiteral_nil : EndsLiteral [] := fun _ h => nomatch h

namespace Lexeme

/-! ## The tokens of literals -/

/-- Each character as it stands between quotes. -/
theorem closes_escaped (cs : List Char) : Closes '"' cs
    ((cs.flatMap fun c => if c = '\\' ∨ c = '"' then ['\\', c] else [c]) ++ ['"']) := by
  induction cs with
  | nil => exact .close
  | cons c cs ih =>
    rw [List.flatMap_cons, List.append_assoc]
    split
    · next hc =>
      rcases hc with rfl | rfl
      · exact Closes.escaped (e := '\\') ih
      · exact Closes.escaped (e := '"') ih
    · next hc => exact .plain (fun h => hc (.inr h)) (fun h => hc (.inl h)) ih

theorem toList_writtenText (s : String) : (writtenText s).toList = '"' ::
    ((s.toList.flatMap fun c => if c = '\\' ∨ c = '"' then ['\\', c] else [c]) ++ ['"']) := by
  simp [writtenText]

theorem spells_writtenText (s : String) : Spells .quoted (writtenText s).toList .text (.text s) := by
  have hspells := Spells.quoted (.inl rfl) (closes_escaped s.toList)
  rwa [String.ofList_toList, ← toList_writtenText] at hspells

theorem isNumber_toDigits (n : Nat) : IsNumber (Nat.toDigits 10 n) where
  front := by
    obtain ⟨c, cs, hcs⟩ := List.exists_cons_of_ne_nil (Nat.toDigits_ne_nil (n := n) (b := 10))
    have hc : c ∈ Nat.toDigits 10 n := hcs ▸ List.mem_cons_self
    rw [hcs]
    exact isDigit_of_mem_toDigits hc
  chars c hc := .inl (isDigit_of_mem_toDigits hc)
  point := by
    have hnone : '.' ∉ Nat.toDigits 10 n := fun h => by cases isDigit_of_mem_toDigits h
    rw [List.count_eq_zero.mpr hnone]
    exact Nat.zero_le 1

theorem numberValue_toDigits (n : Nat) :
    numberValue (Nat.toDigits 10 n) = Float.ofScientific n true 0 := by
  have hpoint : (Nat.toDigits 10 n).dropWhile (· != '.') = [] := by
    refine List.dropWhile_eq_nil_iff.mpr fun c hc => ?_
    have hdigit := isDigit_of_mem_toDigits hc
    rw [bne_iff_ne]
    rintro rfl
    cases hdigit
  have hdigits : (Nat.toDigits 10 n).filter Decimal.isDigit = Nat.toDigits 10 n :=
    List.filter_eq_self.mpr fun c hc => isDigit_of_mem_toDigits hc
  rw [numberValue, hpoint, hdigits, Decimal.naturalValue_toDigits]
  rfl

theorem spells_toDigits (n : Nat) : Spells .number (Nat.toDigits 10 n) (Literal.natural n).1
    (Literal.natural n).2 := by
  have hspells := Spells.number (isNumber_toDigits n)
  rwa [numberValue_toDigits] at hspells

/-- No number goes on behind a literal. -/
theorem longest_number (hrest : EndsLiteral rest) : Longest .number taken rest := by
  rintro more hmore ⟨rest, rfl⟩ kind value hspells
  obtain ⟨c, more, rfl⟩ := List.exists_cons_of_ne_nil hmore
  cases hspells with
  | number hnumber =>
    have hc := hnumber.chars c (by simp)
    rcases hrest c rfl with rfl | rfl
    · exact absurd hc (by decide)
    · exact absurd hc (by decide)

theorem longest_name (hrest : EndsLiteral rest) (htaken : taken ≠ []) :
    Longest .name taken rest := by
  rintro more hmore ⟨rest, rfl⟩ kind value hspells
  obtain ⟨c, more, rfl⟩ := List.exists_cons_of_ne_nil hmore
  obtain ⟨d, taken, rfl⟩ := List.exists_cons_of_ne_nil htaken
  cases hspells with
  | name hname =>
    have hc := hname.chars c (by simp)
    rcases hrest c rfl with rfl | rfl
    · exact absurd hc (by decide)
    · exact absurd hc (by decide)

end Lexeme

/-! ## Scans of literals -/

namespace TokenStream

/-- A token and the tokens behind it. -/
theorem Scans.token {f : Lexeme.Form} {w : Word} (h : Lexeme.Spells f cs w.1 w.2)
    (hlong : Lexeme.Longest f cs rest) (hrest : Scans (p.pastAll cs) rest us q) :
    ∃ t, t.word = w ∧ Scans p (cs ++ rest) (t :: us) q := by
  cases cs with
  | nil => exact (Lexeme.not_spells_nil h).elim
  | cons c cs =>
    have hscans := Scans.cons (Lexeme.read_spells h hlong) hrest
    cases f <;> exact ⟨_, rfl, hscans⟩

/-- Every token has a character. -/
theorem Scans.length_le (h : Scans p cs ts q) : ts.length ≤ cs.length := by
  induction h with
  | nil => exact Nat.le_refl 0
  | @cons p c cs l taken rest ts q hread _ ih =>
    have hshorter := Lexeme.read_shorter hread
    have hone : (l.token? p (p.pastAll taken)).toList.length ≤ 1 := by
      cases l <;> simp [Lexeme.token?]
    rw [List.length_append]
    omega

end TokenStream

namespace Literal

variable {ws : List Word}

def ScansTo (cs : List Char) (ws : List Word) : Prop :=
  ∀ p q rest us, EndsLiteral rest → Scans (p.pastAll cs) rest us q →
    ∃ ts, Spells ts ws ∧ Scans p (cs ++ rest) (ts ++ us) q

theorem scansTo_nil : ScansTo [] [] := fun _ _ _ _ _ hs => ⟨[], rfl, hs⟩

theorem scansTo_token {f : Lexeme.Form} {w : Word} (h : Lexeme.Spells f cs w.1 w.2)
    (hlong : ∀ {rest}, EndsLiteral rest → Lexeme.Longest f cs rest) : ScansTo cs [w] := by
  intro p q rest us hrest hs
  obtain ⟨t, ht, hscans⟩ := Scans.token h (hlong hrest) hs
  exact ⟨[t], congrArg ([·]) ht, hscans⟩

theorem ScansTo.append {cs' : List Char} {ws' : List Word} (h : ScansTo cs ws)
    (h' : ScansTo cs' ws') (hends : ∀ {rest}, EndsLiteral rest → EndsLiteral (cs' ++ rest)) :
    ScansTo (cs ++ cs') (ws ++ ws') := by
  intro p q rest us hrest hs
  rw [Position.pastAll_append] at hs
  obtain ⟨ts', hts', hs'⟩ := h' _ _ _ _ hrest hs
  obtain ⟨ts, hts, hs⟩ := h _ _ _ _ (hends hrest) hs'
  refine ⟨ts ++ ts', ?_, ?_⟩
  · rw [Spells, List.map_append, hts, hts']
  · rw [List.append_assoc, List.append_assoc]
    exact hs

/-- A sign that no character behind it belongs to. -/
theorem ScansTo.behind {f : Lexeme.Form} {w : Word} (h : ScansTo cs ws)
    (hc : Lexeme.Spells f [c] w.1 w.2) (hlong : ∀ rest, Lexeme.Longest f [c] rest) :
    ScansTo (c :: cs) (w :: ws) := by
  intro p q rest us hrest hs
  obtain ⟨ts, hts, hs⟩ := h _ _ _ _ hrest hs
  obtain ⟨t, ht, hs⟩ := Scans.token hc (hlong _) hs
  exact ⟨t :: ts, congrArg₂ List.cons ht hts, hs⟩

theorem ScansTo.paren (h : ScansTo cs ws) (hc : c ∈ Lexeme.parenChars) :
    ScansTo (c :: cs) (.bracket (String.ofList [c]) :: ws) :=
  h.behind (.paren hc) fun rest => Lexeme.longest_singleton (.inr rfl) c rest

theorem ScansTo.blank (h : ScansTo cs ws) : ScansTo (' ' :: cs) ws := by
  intro p q rest us hrest hs
  obtain ⟨ts, hts, hs⟩ := h _ _ _ _ hrest hs
  exact ⟨ts, hts, .cons (Lexeme.read_blank (by decide) (by decide) _) hs⟩

/-! ## The forms of literals -/

theorem scansTo_null : ScansTo null.chars null.words := by
  have hname : Lexeme.IsName null.chars := ⟨by decide, List.all_eq_true.mp (by decide)⟩
  have hspells : Lexeme.Spells .name null.chars .keyword (.text "null") := .name hname
  exact scansTo_token hspells fun hrest => Lexeme.longest_name hrest (List.cons_ne_nil _ _)

theorem scansTo_text (s : String) : ScansTo (text s).chars (text s).words := by
  refine scansTo_token (Lexeme.spells_writtenText s) fun _ => ?_
  rw [chars, Lexeme.toList_writtenText]
  exact Lexeme.longest_closes (.inl rfl) (Lexeme.closes_escaped _) _

/-- The text that shows a text is one token, which holds it. -/
theorem ofSource_writtenText (s file : String) :
    let stop := (Position.first file).pastAll (writtenText s).toList
    TokenStream.ofSource (writtenText s) file =
      .ok ⟨[Token.make .text (.text s) (.first file) (some stop)],
        Token.make .eof .null stop none⟩ := by
  have hspells := Lexeme.spells_writtenText s
  have hlong := Lexeme.longest_closes (.inl rfl) (Lexeme.closes_escaped s.toList) []
  have hchars := Lexeme.toList_writtenText s
  rw [hchars] at hspells
  have hscans := Scans.cons (p := .first file) (Lexeme.read_spells hspells hlong) .nil
  rw [List.append_nil, ← hchars] at hscans
  exact hscans.ofSource_eq

theorem scansTo_natural (n : Nat) : ScansTo (Nat.toDigits 10 n) [natural n] :=
  scansTo_token (Lexeme.spells_toDigits n) Lexeme.longest_number

theorem scansTo_integer (i : Int) : ScansTo (toString i).toList (integer i) := by
  cases i with
  | ofNat n =>
    rw [toList_toString_ofNat]
    exact scansTo_natural n
  | negSucc n =>
    rw [toList_toString_negSucc]
    refine (scansTo_natural (n + 1)).behind (f := .operator) (.operator (by decide)) fun rest => ?_
    exact Lexeme.longest_operator fun h => absurd h (by decide)

theorem endsLiteral_moreElements (ls : List Literal) (hrest : EndsLiteral rest) :
    EndsLiteral (charsOfMoreElements ls ++ rest) := by
  cases ls with
  | nil => exact hrest
  | cons l ls => exact endsLiteral_cons (.inl rfl)

theorem scansTo_moreElements {ls : List Literal} (h : ∀ l ∈ ls, ScansTo l.chars l.words) :
    ScansTo (charsOfMoreElements ls) (wordsOfMoreElements ls) := by
  induction ls with
  | nil => exact scansTo_nil
  | cons l ls ih =>
    have hmore := ih fun k hk => h k (List.mem_cons_of_mem _ hk)
    have hboth := (h l List.mem_cons_self).append hmore (endsLiteral_moreElements ls)
    exact hboth.blank.paren (by decide)

theorem scansTo_elements {ls : List Literal} (h : ∀ l ∈ ls, ScansTo l.chars l.words) :
    ScansTo (charsOfElements ls) (wordsOfElements ls) := by
  cases ls with
  | nil => exact scansTo_nil
  | cons l ls =>
    have hmore := scansTo_moreElements fun k hk => h k (List.mem_cons_of_mem _ hk)
    exact (h l List.mem_cons_self).append hmore (endsLiteral_moreElements ls)

/-- What writes a literal is read as its words. -/
theorem scansTo (l : Literal) : ScansTo l.chars l.words := by
  induction l with
  | null => exact scansTo_null
  | text s => exact scansTo_text s
  | number n => exact scansTo_integer n.value
  | list ls ih =>
    have hclose : ScansTo [']'] [.bracket "]"] := scansTo_nil.paren (by decide)
    have hend {rest} (_ : EndsLiteral rest) : EndsLiteral ([']'] ++ rest) :=
      endsLiteral_cons (.inr rfl)
    exact ((scansTo_elements ih).append hclose hend).paren (by decide)

/-- The tokens of a text that is a literal. -/
theorem scans_source (l : Literal) (file : String) :
    ∃ ts q, Spells ts l.words ∧ Scans (.first file) l.source.toList ts q := by
  obtain ⟨ts, hts, hs⟩ := l.scansTo (.first file) _ [] [] endsLiteral_nil .nil
  rw [List.append_nil, List.append_nil] at hs
  rw [source, String.toList_ofList]
  exact ⟨ts, _, hts, hs⟩

end Literal

end Lumen
