import Lumen.Proofs.Grammar.Tails
import Lumen.Node.Parser

/-!
# Parsers that get through

`Runs deep x ts a rest` says that `x` takes the tokens from `ts` up to `rest` and returns `a`. It
may also find the tokens nested too deep, but only if `deep` holds. There is one lemma for each way
to build a parser, given that the tokens it looks for are there.
-/

namespace Lumen.Parser

open Grammar (Newlines Derives Phrase Tail Level)

variable {α β : Type} {eof t : Token} {ts mid rest : List Token} {deep : Prop}

def Runs (deep : Prop) (x : Parser α) (ts : List Token) (a : α) (rest : List Token) : Prop :=
  x.run ts = .ok (a, rest) ∨ deep ∧ GivesUp x ts

namespace Runs

variable {a : α} {b : β} {x y : Parser α}

theorem mono {deep' : Prop} (h : Runs deep x ts a rest) (himp : deep → deep') :
    Runs deep' x ts a rest := by
  rcases h with h | ⟨hdeep, h⟩
  · exact .inl h
  · exact .inr ⟨himp hdeep, h⟩

theorem pure : Runs deep (Pure.pure a : Parser α) ts a ts := .inl rfl

theorem giveUp (h : deep) : Runs deep (Parser.giveUp eof : Parser α) ts a rest :=
  .inr ⟨h, _, rfl⟩

theorem bind {f : α → Parser β} (hx : Runs deep x ts a mid) (hf : Runs deep (f a) mid b rest) :
    Runs deep (x >>= f) ts b rest := by
  rcases hx with hx | ⟨hdeep, hx⟩
  · rcases hf with hf | ⟨hdeep, hf⟩
    · exact .inl (by rw [StateT.run_bind, hx]; exact hf)
    · exact .inr ⟨hdeep, by rw [GivesUp, StateT.run_bind, hx]; exact hf⟩
  · exact .inr ⟨hdeep, hx.bind⟩

theorem ite_pos {c : Prop} [Decidable c] (hc : c) (h : Runs deep x ts a rest) :
    Runs deep (if c then x else y) ts a rest := by
  rw [if_pos hc]
  exact h

theorem ite_neg {c : Prop} [Decidable c] (hc : ¬ c) (h : Runs deep y ts a rest) :
    Runs deep (if c then x else y) ts a rest := by
  rw [if_neg hc]
  exact h

end Runs

/-! ## Single tokens -/

theorem runs_get : Runs deep get ts ts ts := .inl rfl

theorem runs_set {us : List Token} : Runs deep (set us) ts ⟨⟩ us := .inl rfl

theorem runs_peek : Runs deep (peek eof) ts (ts.headD eof) ts := .inl rfl

theorem runs_advance : Runs deep (advance eof) (t :: ts) t ts := .inl rfl

theorem runs_sees {kind : TokenKind} {s : String} :
    Runs deep (sees eof kind s) ts ((ts.headD eof).is kind s) ts := .inl rfl

theorem runs_seesKind {kind : TokenKind} :
    Runs deep (seesKind eof kind) ts ((ts.headD eof).kind == kind) ts := .inl rfl

section

variable {kind : TokenKind} {s : String} {x y : Parser α} {a : α}

theorem runs_seen (ht : t.is kind s) (h : Runs deep x (t :: ts) a rest) :
    Runs deep (do if ← sees eof kind s then x else y) (t :: ts) a rest :=
  Runs.bind runs_sees (Runs.ite_pos ht h)

theorem runs_unseen (ht : (ts.headD eof).is kind s = false) (h : Runs deep y ts a rest) :
    Runs deep (do if ← sees eof kind s then x else y) ts a rest :=
  Runs.bind runs_sees (Runs.ite_neg (Bool.eq_false_iff.mp ht) h)

theorem runs_consume (ht : t.is kind s) : Runs deep (consume eof kind s) (t :: ts) t ts :=
  runs_seen ht runs_advance

theorem runs_consumeIdentifier {what : String} (ht : t.kind = .identifier) :
    Runs deep (consumeIdentifier eof what) (t :: ts) t ts :=
  Runs.bind runs_seesKind (Runs.ite_pos (beq_iff_eq.mpr ht) runs_advance)

end

/-- The tokens that mark the end of a text are no words. -/
theorem headD_is (heof : eof.kind = .eof) {kind : TokenKind} (hkind : kind ≠ .eof) (s : String)
    (ts : List Token) : (ts.headD eof).is kind s = ts.head?.any (·.is kind s) := by
  cases ts with
  | nil => exact Token.is_of_kind heof (Ne.symm hkind) s
  | cons t ts => rfl

/-! ## Newlines -/

def breaks (ts : List Token) : Bool := ts.head?.any Token.isNewline

theorem dropWhile_of_breaks (h : breaks ts = false) : ts.dropWhile Token.isNewline = ts := by
  cases ts with
  | nil => rfl
  | cons t ts => exact List.dropWhile_cons_of_neg (Bool.eq_false_iff.mp h)

theorem runs_skipNewlines (h : Newlines ts rest) (hrest : breaks rest = false) :
    Runs deep skipNewlines ts ⟨⟩ rest := by
  have hskip : ts.dropWhile Token.isNewline = rest := by
    rw [h.dropWhile, dropWhile_of_breaks hrest]
  exact .inl (by rw [← hskip]; rfl)

theorem breaks_of_is {kind : TokenKind} {s : String} (h : t.is kind s)
    (hkind : kind ≠ .newline) : breaks (t :: ts) = false := by
  rw [breaks, List.head?_cons, Option.any_some, Token.isNewline_of_kind (Token.kind_of_is h),
    decide_eq_false hkind]

/-- No statement or expression starts with a newline. -/
theorem breaks_of_derives {r : Grammar.Reading} {φ : Phrase} {n : Nesting} {y : Grammar.Yield}
    (h : Derives r φ n ts rest y) (hφ : φ.firstWords ≠ []) : breaks ts = false := by
  obtain ⟨t, us, rfl, ht⟩ := h.opens hφ
  exact ht.not_isNewline

/-! ## Assignment signs -/

def assigned (ts : List Token) : Bool := ts.head?.any (·.is .operator "=")

theorem barrier_of_assigned (h : assigned ts) : Grammar.Barrier ts := by
  cases ts with
  | nil => exact Grammar.barrier_nil
  | cons t ts => exact Grammar.barrier_of_is (k := .operator) (s := "=") h (by decide)

theorem assigned_of_starts {τ : Tail} (h : τ.starts ts) : assigned ts = false := by
  rw [Bool.eq_false_iff]
  intro hassigned
  exact Bool.false_ne_true ((barrier_of_assigned hassigned τ).symm.trans h)

theorem assigned_of_is {kind : TokenKind} {s : String} (h : t.is kind s)
    (hs : kind = .operator → s ≠ "=") : assigned (t :: ts) = false := by
  rw [assigned, List.head?_cons, Option.any_some, Token.is_of_is h, ← Bool.decide_and,
    decide_eq_false fun heq => hs heq.1 heq.2]

theorem assigned_of_newlines (h : Newlines ts rest) (hrest : assigned rest = false) :
    assigned ts = false := by
  cases h with
  | nil => exact hrest
  | cons ht _ => exact Token.is_of_kind (Grammar.kind_of_isNewline ht) (by decide) _

end Lumen.Parser
