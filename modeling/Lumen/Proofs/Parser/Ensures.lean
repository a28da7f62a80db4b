import Lumen.Proofs.Grammar.Shape

/-!
# What a parser ensures

`Ensures x ts P` says that `P` holds of the result and of the tokens that are left when `x` takes
some of the tokens `ts` and does not fail. There is one lemma for each way to build a parser. The
token that marks the end of a text is of no other kind, so no parser takes it.
-/

namespace Lumen.Parser

open Grammar (Newlines Derives Phrase)

variable {α β : Type} {eof t : Token} {ts : List Token}

def Ensures (x : Parser α) (ts : List Token) (P : α → List Token → Prop) : Prop :=
  ∀ a rest, x.run ts = .ok (a, rest) → P a rest

namespace Ensures

variable {P Q : α → List Token → Prop} {x : Parser α}

theorem mono (h : Ensures x ts P) (himp : ∀ a rest, P a rest → Q a rest) : Ensures x ts Q :=
  fun a rest hr => himp a rest (h a rest hr)

theorem pure {a : α} (h : P a ts) : Ensures (Pure.pure a : Parser α) ts P := by
  intro b rest hr
  cases hr
  exact h

theorem bind {x : Parser β} {f : β → Parser α}
    (h : Ensures x ts fun b rest => Ensures (f b) rest P) : Ensures (x >>= f) ts P := by
  intro a rest hr
  rw [StateT.run_bind] at hr
  cases hx : x.run ts with
  | error e =>
    rw [hx] at hr
    cases hr
  | ok b =>
    rw [hx] at hr
    exact h b.1 b.2 hx a rest hr

theorem throw {e : Failure} : Ensures (throw e : Parser α) ts P := by
  intro b rest hr
  cases hr

theorem ite {c : Prop} [Decidable c] {x y : Parser α} (hx : c → Ensures x ts P)
    (hy : ¬ c → Ensures y ts P) : Ensures (if c then x else y) ts P := by
  split
  · next h => exact hx h
  · next h => exact hy h

end Ensures

section

variable {P : Token → List Token → Prop}

theorem ensures_get {P : List Token → List Token → Prop} (h : P ts ts) :
    Ensures (get : Parser (List Token)) ts P := by
  intro a rest hr
  cases hr
  exact h

theorem ensures_set {us : List Token} {P : PUnit → List Token → Prop} (h : P ⟨⟩ us) :
    Ensures (set us : Parser PUnit) ts P := by
  intro a rest hr
  cases hr
  exact h

theorem ensures_peek (h : P (ts.headD eof) ts) : Ensures (peek eof) ts P := by
  intro a rest hr
  cases hr
  exact h

theorem ensures_advance (h : P t ts) : Ensures (advance eof) (t :: ts) P := by
  intro a rest hr
  cases hr
  exact h

theorem ensures_sees {kind : TokenKind} {s : String} {P : Bool → List Token → Prop}
    (h : P ((ts.headD eof).is kind s) ts) : Ensures (sees eof kind s) ts P := by
  intro a rest hr
  cases hr
  exact h

/-- A parser that looks at the next token finds a token of the text, or takes the other way. -/
theorem ensures_ifSees {kind : TokenKind} {s : String} {x y : Parser α}
    {P : α → List Token → Prop} (heof : eof.kind = .eof) (hkind : kind ≠ .eof)
    (hx : ∀ t us, ts = t :: us → t.is kind s → Ensures x (t :: us) P)
    (hy : (ts.headD eof).is kind s = false → Ensures y ts P) :
    Ensures (do if ← sees eof kind s then x else y) ts P := by
  apply Ensures.bind
  apply ensures_sees
  cases ts with
  | nil =>
    have hne : (([] : List Token).headD eof).is kind s = false :=
      Token.is_of_kind heof (Ne.symm hkind) s
    rw [hne]
    exact hy hne
  | cons t us =>
    rw [List.headD_cons]
    cases ht : t.is kind s with
    | true => exact hx t us rfl ht
    | false => exact hy ht

theorem ensures_seesKind {kind : TokenKind} {P : Bool → List Token → Prop}
    (h : P ((ts.headD eof).kind == kind) ts) : Ensures (seesKind eof kind) ts P := by
  intro a rest hr
  cases hr
  exact h

theorem ensures_refuse {c : Complaint} {P : α → List Token → Prop} :
    Ensures (refuse eof c) ts P :=
  Ensures.bind (ensures_peek Ensures.throw)

theorem ensures_giveUp {P : α → List Token → Prop} : Ensures (giveUp eof) ts P :=
  Ensures.bind (ensures_peek Ensures.throw)

theorem newlines_dropWhile (ts : List Token) : Newlines ts (ts.dropWhile Token.isNewline) := by
  induction ts with
  | nil => exact .nil
  | cons t ts ih =>
    cases ht : t.isNewline with
    | true =>
      rw [List.dropWhile_cons_of_pos ht]
      exact .cons ht ih
    | false =>
      rw [List.dropWhile_cons_of_neg (by simp [ht])]
      exact .nil

theorem ensures_dropNewlines {P : PUnit → List Token → Prop}
    (h : P ⟨⟩ (ts.dropWhile Token.isNewline)) : Ensures skipNewlines ts P := by
  intro a rest hr
  cases hr
  exact h

theorem ensures_skipNewlines {P : PUnit → List Token → Prop}
    (h : ∀ rest, Newlines ts rest → P ⟨⟩ rest) : Ensures skipNewlines ts P :=
  ensures_dropNewlines (h _ (newlines_dropWhile ts))

theorem ensures_consume {kind : TokenKind} {s : String} (heof : eof.kind = .eof)
    (hkind : kind ≠ .eof) (h : ∀ t us, ts = t :: us → t.is kind s → P t us) :
    Ensures (consume eof kind s) ts P := by
  apply Ensures.bind
  apply ensures_sees
  cases ts with
  | nil =>
    rw [List.headD_nil, Token.is_of_kind heof (Ne.symm hkind)]
    exact ensures_refuse
  | cons t us =>
    rw [List.headD_cons]
    split
    · next ht => exact ensures_advance (h t us rfl ht)
    · exact ensures_refuse

theorem ensures_consumeIdentifier {what : String} (heof : eof.kind = .eof)
    (h : ∀ t us, ts = t :: us → t.kind = .identifier → P t us) :
    Ensures (consumeIdentifier eof what) ts P := by
  apply Ensures.bind
  apply ensures_seesKind
  cases ts with
  | nil =>
    rw [List.headD_nil, heof]
    exact ensures_refuse
  | cons t us =>
    rw [List.headD_cons]
    split
    · next ht => exact ensures_advance (h t us rfl (eq_of_beq ht))
    · exact ensures_refuse

end

end Lumen.Parser
