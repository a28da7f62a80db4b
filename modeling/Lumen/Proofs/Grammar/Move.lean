import Lumen.Proofs.Grammar.Tails
import Lumen.Proofs.Node.Move

/-!
# Derivations at other places

The grammar looks at the words of tokens and never at their places, so a derivation can be moved as
a whole.
-/

namespace Lumen.Grammar

variable {f : Position → Position}

def Yield.move (f : Position → Position) : Yield → Yield
  | node e => node (e.move f)
  | nodes es => nodes (es.map (Node.move f))
  | optional o => optional (o.map (Node.move f))
  | clauses cases o =>
    clauses (cases.map (Prod.map (Node.move f) (Node.move f))) (o.map (Node.move f))

def Phrase.move (f : Position → Position) : Phrase → Phrase
  | chain ℓ left => chain ℓ (left.move f)
  | choice condition => choice (condition.move f)
  | suffixes target => suffixes (target.move f)
  | φ => φ

abbrev moved (f : Position → Position) (ts : List Token) : List Token := ts.map (Token.move f)

section

variable {ts rest : List Token}

theorem Newlines.move (h : Newlines ts rest) : Newlines (moved f ts) (moved f rest) := by
  induction h with
  | nil => exact .nil
  | cons ht _ ih => exact .cons ht ih

theorem MoreParameters.move {params : List Token} (h : MoreParameters ts rest params) :
    MoreParameters (moved f ts) (moved f rest) (moved f params) := by
  induction h with
  | nil => exact .nil
  | cons ht h₁ hname h₂ _ ih => exact .cons ht h₁.move hname h₂.move ih

theorem Parameters.move {params : List Token} (h : Parameters ts rest params) :
    Parameters (moved f ts) (moved f rest) (moved f params) := by
  cases h with
  | nil h => exact .nil h.move
  | cons h₁ ht h₂ hmore => exact .cons h₁.move ht h₂.move hmore.move

theorem Named.move {name : Option Token} (h : Named ts rest name) :
    Named (moved f ts) (moved f rest) (name.map (Token.move f)) := by
  cases h with
  | none => exact .none
  | some ht => exact .some ht

theorem dropWhile_moved (ts : List Token) :
    (moved f ts).dropWhile Token.isNewline = moved f (ts.dropWhile Token.isNewline) := by
  induction ts with
  | nil => rfl
  | cons t ts ih =>
    rw [moved, List.map_cons, List.dropWhile_cons, List.dropWhile_cons, Token.move_isNewline]
    split
    · exact ih
    · rfl

theorem Tail.starts_moved (τ : Tail) (ts : List Token) : τ.starts (moved f ts) = τ.starts ts := by
  have hhead (p : Token → Bool) (hp : ∀ t, p (t.move f) = p t) (ts : List Token) :
      (moved f ts).head?.any p = ts.head?.any p := by
    cases ts with
    | nil => rfl
    | cons t ts => exact hp t
  cases τ with
  | chain ℓ => exact hhead _ (fun _ => rfl) ts
  | choice => exact hhead _ (fun _ => rfl) ts
  | suffixes => exact hhead _ (fun _ => rfl) ts
  | clauses =>
    rw [starts, starts, dropWhile_moved]
    exact hhead _ (fun _ => rfl) _

theorem Reading.Ends.move {r : Reading} {τ : Tail} (h : r.Ends τ ts) : r.Ends τ (moved f ts) := by
  intro hr
  rw [Tail.starts_moved]
  exact h hr

theorem Reading.Returns.move {r : Reading} (h : r.Returns ts) : r.Returns (moved f ts) := by
  refine h.imp id fun h => ?_
  cases ts with
  | nil => rfl
  | cons t ts => exact h

theorem lastBody_move (guarded : Node) (cases : List (Node × Node)) (otherwise : Option Node) :
    (lastBody guarded cases otherwise).move f =
      lastBody (guarded.move f) (cases.map (Prod.map (Node.move f) (Node.move f)))
        (otherwise.map (Node.move f)) := by
  cases otherwise with
  | some e => rfl
  | none =>
    simp only [lastBody, Option.map_none, Option.getD_none, List.getLast?_map, Option.map_map]
    cases cases.getLast? with
    | none => rfl
    | some g => rfl

theorem Level.move_operand (ℓ : Level) : ℓ.operand.move f = ℓ.operand := by cases ℓ <;> rfl

end

theorem Derives.move {r : Reading} {φ : Phrase} {n : Parser.Nesting} {ts rest : List Token}
    {y : Yield} (h : Derives r φ n ts rest y) :
    Derives r (φ.move f) n (moved f ts) (moved f rest) (y.move f) := by
  induction h with
  | noStatements => exact .noStatements
  | statements _ _ ihs ihss => exact .statements ihs ihss
  | lastStatement => exact .lastStatement
  | moreStatements ht h₁ _ _ ihs ihss => exact .moreStatements ht h₁.move ihs ihss
  | block ht h₁ _ h₂ hu ih =>
    rw [Yield.move, Node.move_block]
    exact Derives.block (t := Token.move f _) ht h₁.move ih h₂.move hu
  | blockBody _ ih => exact .blockBody ih
  | statementBody ht _ ih => exact .statementBody ht ih
  | giveBackNothing ht hn hreturns => exact .giveBackNothing ht hn hreturns.move
  | giveBack ht hn _ ih =>
    rw [Yield.move, Node.move_giveBack, ← Node.move_stop (f := f)]
    exact .giveBack ht hn ih
  | breakLoop ht hn => exact .breakLoop ht hn
  | continueLoop ht hn => exact .continueLoop ht hn
  | evaluate _ ih => exact .evaluate ih
  | assign ht hu _ ih => exact .assign ht hu ih
  | assignIndex ht hu h₁ _ h₂ hv hw _ ihi ihe =>
    exact .assignIndex ht hu h₁.move ihi h₂.move hv hw ihe
  | ternary _ ih => exact .ternary ih
  | condition _ _ ihc ih => exact .condition ihc ih
  | noChoice hends => exact .noChoice hends.move
  | choice ht _ hu _ iha ihb => exact .choice ht iha hu ihb
  | level _ _ iha ih => exact .level (Level.move_operand _ ▸ iha) ih
  | endChain hends => exact .endChain hends.move
  | chain ht _ _ ihb ih => exact .chain ht (Level.move_operand _ ▸ ihb) ih
  | sign ht _ ih => exact .sign ht ih
  | unsigned _ ih => exact .unsigned ih
  | target _ _ iha ih => exact .target iha ih
  | endSuffixes hends => exact .endSuffixes hends.move
  | call ht _ hu _ ihargs ih =>
    rw [Phrase.move, Node.move_call] at ih
    exact .call ht ihargs hu ih
  | index ht h₁ _ h₂ hu _ ihi ih =>
    rw [Phrase.move, Node.move_index] at ih
    exact .index ht h₁.move ihi h₂.move hu ih
  | slice ht h₁ _ h₂ hv h₃ _ h₄ hu _ ihi ihj ih =>
    rw [Phrase.move, Node.move_index] at ih
    exact .slice ht h₁.move ihi h₂.move hv h₃.move ihj h₄.move hu ih
  | noArguments h => exact .noArguments h.move
  | arguments h₁ _ h₂ _ ihe ih => exact .arguments h₁.move ihe h₂.move ih
  | lastArgument => exact .lastArgument
  | moreArguments ht h₁ _ h₂ _ ihe ih => exact .moreArguments ht h₁.move ihe h₂.move ih
  | number ht => exact .number ht
  | text ht => exact .text ht
  | null ht => exact .null ht
  | lookup ht => exact .lookup ht
  | parentheses ht h₁ _ h₂ hu ih => exact .parentheses ht h₁.move ih h₂.move hu
  | list ht _ hu ih =>
    rw [Yield.move, Node.move_list]
    exact Derives.list (t := Token.move f _) ht ih hu
  | conditional ht _ _ _ ihc ihb ih =>
    rw [Yield.move, Node.move_conditional, ← Node.move_stop (f := f), lastBody_move]
    exact .conditional ht ihc ihb ih
  | endClauses hends => exact .endClauses hends.move
  | elseIf h₁ ht _ _ _ ihc ihb ih => exact .elseIf h₁.move ht ihc ihb ih
  | otherwise h₁ ht _ ih => exact .otherwise h₁.move ht ih
  | forLoop ht hname hu _ hv _ _ _ iha ihb ihstep ih =>
    rw [Yield.move, Node.move_forLoop, ← Node.move_stop (f := f)]
    exact .forLoop ht hname hu iha hv ihb ihstep ih
  | noStep => exact .noStep
  | step ht _ ih => exact .step ht ih
  | eachLoop ht hname hu _ _ ihe ih =>
    rw [Yield.move, Node.move, ← Node.move_stop (f := f)]
    exact .eachLoop ht hname hu ihe ih
  | whileLoop ht _ _ ihc ih =>
    rw [Yield.move, Node.move, ← Node.move_stop (f := f)]
    exact .whileLoop ht ihc ih
  | functionBlock ht hname hu hparams hv _ ih =>
    rw [Yield.move, Node.move, ← Node.move_stop (f := f)]
    exact .functionBlock ht hname.move hu hparams.move hv ih
  | functionExpression ht hname hu hparams hv hw _ ih =>
    rw [Yield.move, Node.move, ← Node.move_stop (f := f)]
    exact .functionExpression ht hname.move hu hparams.move hv hw ih

end Lumen.Grammar
