import Lumen.Proofs.Grammar.Tails

/-!
# What is still due

Behind some tokens of a program there are brackets still to be closed, and a colon or a block still
to come for each word that calls for one. A colon for which no word calls stands between the bounds
of a slice. With that it is said which tokens let a newline stand behind them or before them.
-/

namespace Lumen

/-- What must come before something that has been begun can end. -/
inductive Due where
  /-- The bracket that closes the token. -/
  | closing (t : Token)
  /-- The colon or the block that a word calls for. -/
  | body

namespace Due

def bracket? : Due → Option Token
  | closing t => some t
  | body => none

def settle : List Due → List Due
  | body :: ds => ds
  | ds => ds

def leave : List Due → List Due
  | [] => []
  | closing _ :: ds => ds
  | body :: ds => leave ds

def awaitsBody : List Due → Bool
  | body :: _ => true
  | _ => false

def brackets (ds : List Due) : List Token := ds.filterMap bracket?

def isBracketed (ds : List Due) : Bool :=
  (brackets ds).head?.any fun t => t.is .paren "(" || t.is .paren "["

end Due

namespace Token

open Due (settle leave awaitsBody)

/-- A colon or a block has to follow the word, and what stands between them. -/
def callsForBody (t : Token) : Bool :=
  t.is .operator "?" || t.is .keyword "if" || t.is .keyword "elif" || t.is .keyword "else" ||
    t.is .keyword "each" || t.is .keyword "while" || t.is .keyword "func"

/-- What is due behind the token, the innermost first, where `ds` is due before it. -/
def due (ds : List Due) (t : Token) : List Due :=
  if t.isOpening then .closing t :: (if t.is .paren openBrace then settle ds else ds)
  else if t.isClosing then leave ds
  else if t.is .operator ":" || t.is .keyword "to" then settle ds
  else if t.is .keyword "for" then .body :: .body :: ds
  else if t.callsForBody then .body :: ds
  else ds

def isSliceColon (ds : List Due) (t : Token) : Bool := t.is .operator ":" && !awaitsBody ds

def loosensBehind (ds : List Due) (t : Token) : Bool :=
  t.isNewline || t.is .paren "(" || t.is .paren "[" || t.is .paren "," || t.isSliceColon ds

def loosensBefore (ds : List Due) (t : Token) : Bool :=
  t.isNewline || t.is .paren ")" || t.is .paren "]" || t.is .paren "," || t.is .keyword "elif" ||
    t.is .keyword "else" || t.isSliceColon ds

/-- What the token does to what is due, and whether newlines may stand before and behind it. -/
structure Acts (t : Token) (ds ds' : List Due) (before behind : Bool) : Prop where
  due : t.due ds = ds'
  before : t.loosensBefore ds = before
  behind : t.loosensBehind ds = behind
  word : t.isNewline = false

section

variable {t b : Token} {ds : List Due} {k : TokenKind} {s : String}

def markedWords : List (TokenKind × String) :=
  [(.paren, "("), (.paren, "["), (.paren, openBrace), (.paren, ")"), (.paren, "]"),
    (.paren, closeBrace), (.paren, ","), (.operator, ":"), (.operator, "?"), (.keyword, "to"),
    (.keyword, "for"), (.keyword, "if"), (.keyword, "elif"), (.keyword, "else"), (.keyword, "each"),
    (.keyword, "while"), (.keyword, "func")]

/-- All other words leave what is due alone. -/
theorem acts_of_not_is (h : ∀ w ∈ markedWords, t.is w.1 w.2 = false) (hword : t.isNewline = false) :
    t.Acts ds ds false false := by
  simp only [markedWords, List.forall_mem_cons, List.not_mem_nil, false_implies, implies_true,
    and_true] at h
  constructor <;> simp [due, isOpening, isClosing, callsForBody, loosensBefore, loosensBehind,
    isSliceColon, h, hword]

theorem acts_plain (h : t.is k s) (hs : (k, s) ∉ markedWords) (hk : k ≠ .newline) :
    t.Acts ds ds false false := by
  refine acts_of_not_is (fun w hw => ?_) ?_
  · rw [is_of_is h, Bool.and_eq_false_iff, decide_eq_false_iff_not, decide_eq_false_iff_not,
      ← Classical.not_and_iff_not_or_not]
    rintro ⟨rfl, rfl⟩
    exact hs hw
  · rw [isNewline_of_kind (kind_of_is h), decide_eq_false hk]

theorem acts_of_kind (h : t.kind = k) (hk : k ∈ [.number, .text, .identifier]) :
    t.Acts ds ds false false := by
  refine acts_of_not_is (fun w hw => is_of_kind h (fun hw' => ?_) _) ?_
  · have hkinds : ∀ w ∈ markedWords, w.1 ∉ [.number, .text, .identifier] := by decide
    exact hkinds w hw (hw' ▸ hk)
  · rw [isNewline_of_kind h]
    revert hk
    cases k <;> decide

theorem acts_joins {ℓ : Grammar.Level} (h : ℓ.joins t) : t.Acts ds ds false false := by
  have hwords : ∀ s ∈ ℓ.operators, (.operator, s) ∉ markedWords := by cases ℓ <;> decide
  obtain ⟨s, hs, ht⟩ := (ℓ.joins_iff t).mp h
  exact acts_plain ht (hwords s hs) (by decide)

theorem acts_sign (h : Grammar.isSign t) : t.Acts ds ds false false := by
  have hwords : ∀ s ∈ ["-", "+", "not"], (.operator, s) ∉ markedWords := by decide
  obtain ⟨s, hs, ht⟩ := List.any_eq_true.mp h
  exact acts_plain ht (hwords s hs) (by decide)

/-! ## Brackets -/

theorem acts_opening (h : t.is .paren "(" ∨ t.is .paren "[") :
    t.Acts ds (.closing t :: ds) false true := by
  rcases h with h | h <;> constructor <;> simp [due, isOpening, loosensBefore, loosensBehind,
    isSliceColon, isNewline_of_kind (kind_of_is h), is_of_is h, openBrace]

theorem acts_openBrace (h : t.is .paren openBrace) :
    t.Acts (.body :: ds) (.closing t :: ds) false false := by
  constructor <;> simp [due, isOpening, loosensBefore, loosensBehind, isSliceColon, settle,
    isNewline_of_kind (kind_of_is h), is_of_is h, openBrace]

theorem acts_closing (h : t.is .paren ")" ∨ t.is .paren "]") :
    t.Acts (.closing b :: ds) ds true false := by
  rcases h with h | h <;> constructor <;> simp [due, isOpening, isClosing, loosensBefore,
    loosensBehind, isSliceColon, leave, isNewline_of_kind (kind_of_is h), is_of_is h, openBrace]

theorem acts_closeBrace (h : t.is .paren closeBrace) :
    t.Acts (.closing b :: ds) ds false false := by
  constructor <;> simp [due, isOpening, isClosing, loosensBefore, loosensBehind, isSliceColon,
    leave, isNewline_of_kind (kind_of_is h), is_of_is h, openBrace, closeBrace]

theorem acts_comma (h : t.is .paren ",") : t.Acts ds ds true true := by
  constructor <;> simp [due, isOpening, isClosing, callsForBody, loosensBefore, loosensBehind,
    isNewline_of_kind (kind_of_is h), is_of_is h, openBrace, closeBrace]

/-! ## Bodies -/

theorem acts_calls (h : t.is k s) (hs : (k, s) ∈ [(.operator, "?"), (.keyword, "if"),
    (.keyword, "each"), (.keyword, "while"), (.keyword, "func")]) :
    t.Acts ds (.body :: ds) false false := by
  simp only [List.mem_cons, List.not_mem_nil, or_false, Prod.mk.injEq] at hs
  rcases hs with ⟨rfl, rfl⟩ | ⟨rfl, rfl⟩ | ⟨rfl, rfl⟩ | ⟨rfl, rfl⟩ | ⟨rfl, rfl⟩ <;> constructor <;>
    simp [due, isOpening, isClosing, callsForBody, loosensBefore, loosensBehind, isSliceColon,
      isNewline_of_kind (kind_of_is h), is_of_is h]

theorem acts_case (h : t.is .keyword "elif" ∨ t.is .keyword "else") :
    t.Acts ds (.body :: ds) true false := by
  rcases h with h | h <;> constructor <;> simp [due, isOpening, isClosing, callsForBody,
    loosensBefore, loosensBehind, isSliceColon, isNewline_of_kind (kind_of_is h), is_of_is h]

theorem acts_for (h : t.is .keyword "for") :
    t.Acts ds (.body :: .body :: ds) false false := by
  constructor <;> simp [due, isOpening, isClosing, loosensBefore, loosensBehind, isSliceColon,
    isNewline_of_kind (kind_of_is h), is_of_is h]

/-- A colon, or `to` in its place, that a word calls for. -/
theorem acts_colon (h : t.is .operator ":" ∨ t.is .keyword "to") :
    t.Acts (.body :: ds) ds false false := by
  rcases h with h | h <;> constructor <;> simp [due, isOpening, isClosing, loosensBefore,
    loosensBehind, isSliceColon, settle, awaitsBody, isNewline_of_kind (kind_of_is h), is_of_is h]

theorem acts_sliceColon (h : t.is .operator ":") :
    t.Acts (.closing b :: ds) (.closing b :: ds) true true := by
  constructor <;> simp [due, isOpening, isClosing, loosensBefore, loosensBehind, isSliceColon,
    settle, awaitsBody, isNewline_of_kind (kind_of_is h), is_of_is h]

theorem due_newline (h : t.isNewline) : t.due ds = ds := by
  have hk := Grammar.kind_of_isNewline h
  simp [due, isOpening, isClosing, callsForBody, is_of_kind hk]

theorem loosensBehind_newline (h : t.isNewline) : t.loosensBehind ds = true := by
  simp [loosensBehind, h]

theorem loosensBefore_newline (h : t.isNewline) : t.loosensBefore ds = true := by
  simp [loosensBefore, h]

end

end Token

end Lumen
