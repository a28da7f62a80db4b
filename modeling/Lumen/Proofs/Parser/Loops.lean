import Lumen.Proofs.Parser.Refusals
import Lumen.Proofs.Parser.Soundness

/-!
# The loops of the parser

A rule that repeats has the tokens that are left for its fuel. Each round takes one of them at
least, and at the end of the text there is no further round, so the fuel is never used up and more
of it changes nothing.
-/

namespace Lumen.Parser

variable {α β : Type} {eof : Token} {rules : Rules} {n : Nesting} {ts : List Token}

/-- Any two fuels that are as long as the tokens lead to the same end. -/
def Suffices (loop : (fuel : List Token) → Parser α) : Prop :=
  ∀ fuel fuel' ts : List Token, ts.length ≤ fuel.length → ts.length ≤ fuel'.length →
    (loop fuel).run ts = (loop fuel').run ts

/-- A loop that stops at the end of the text, and goes on only behind a token that it has taken. -/
theorem suffices_of_round {σ : Type} (loop : List Token → σ → Parser α) (last : σ → α)
    (hend : ∀ fuel s, (loop fuel s).run [] = .ok (last s, []))
    (hround : ∀ t t' fuel fuel' s u us,
      (∀ s' rest, rest.length ≤ us.length → (loop fuel s').run rest = (loop fuel' s').run rest) →
      (loop (t :: fuel) s).run (u :: us) = (loop (t' :: fuel') s).run (u :: us))
    (s : σ) : Suffices fun fuel => loop fuel s := by
  intro fuel
  induction fuel generalizing s with
  | nil =>
    intro fuel' ts hfuel _
    rw [List.length_eq_zero_iff.mp (Nat.le_zero.mp hfuel)]
    exact (hend [] s).trans (hend fuel' s).symm
  | cons t fuel ih =>
    intro fuel' ts hfuel hfuel'
    cases ts with
    | nil => exact (hend _ s).trans (hend fuel' s).symm
    | cons u us =>
      obtain _ | ⟨t', fuel'⟩ := fuel'
      · cases hfuel'
      · refine hround t t' fuel fuel' s u us fun s' rest hrest => ?_
        exact ih s' fuel' rest (Nat.le_trans hrest (Nat.le_of_succ_le_succ hfuel))
          (Nat.le_trans hrest (Nat.le_of_succ_le_succ hfuel'))

/-- A loop without a state. -/
theorem suffices_of_round_unit {loop : List Token → Parser α} (last : α)
    (hend : ∀ fuel, (loop fuel).run [] = .ok (last, []))
    (hround : ∀ t t' fuel fuel' u us,
      (∀ rest, rest.length ≤ us.length → (loop fuel).run rest = (loop fuel').run rest) →
      (loop (t :: fuel)).run (u :: us) = (loop (t' :: fuel')).run (u :: us)) : Suffices loop :=
  suffices_of_round (fun fuel (_ : Unit) => loop fuel) (fun _ => last) (fun fuel _ => hend fuel)
    (fun t t' fuel fuel' _ u us ih => hround t t' fuel fuel' u us fun rest => ih () rest) ()

theorem run_bind_congr {x : Parser α} {f g : α → Parser β}
    (h : ∀ a rest, x.run ts = .ok (a, rest) → (f a).run rest = (g a).run rest) :
    (x >>= f).run ts = (x >>= g).run ts := by
  rw [StateT.run_bind, StateT.run_bind]
  cases hr : x.run ts with
  | ok r => exact h r.1 r.2 hr
  | error e => rfl

/-- What goes ahead leaves no more tokens than there were. -/
theorem Blames.length_le {x : Parser α} {a : α} {rest : List Token} (h : Blames eof x)
    (hr : x.run ts = .ok (a, rest)) : rest.length ≤ ts.length := by
  have h := h ts
  rw [hr] at h
  exact List.IsSuffix.length_le h

theorem length_of_advance {a : Token} {rest : List Token}
    (hr : (advance eof).run ts = .ok (a, rest)) : rest.length = ts.length - 1 := by
  cases ts <;> cases hr <;> rfl

theorem not_isOperatorOf_eof (heof : eof.kind = .eof) (ops : List String) :
    isOperatorOf ops eof = false := by
  rw [isOperatorOf, List.any_eq_false]
  intro s _
  rw [Token.is_of_kind heof (by decide)]
  exact Bool.false_ne_true

/-- Behind the last token no other kind of token is seen. -/
theorem run_ifSees_nil {kind : TokenKind} {s : String} (heof : eof.kind = .eof)
    (hkind : kind ≠ .eof) (x y : Parser α) :
    (do if ← sees eof kind s then x else y).run [] = y.run [] := by
  have hsees : (sees eof kind s).run [] = .ok (eof.is kind s, []) := rfl
  rw [StateT.run_bind, hsees, Token.is_of_kind heof hkind.symm]
  rfl

theorem suffices_chain (heof : eof.kind = .eof) {operand : Parser Node} (h : Blames eof operand)
    (ops : List String) (left : Node) :
    Suffices fun fuel => chain eof operand ops fuel left := by
  refine suffices_of_round (chain eof operand ops) id (fun fuel left => ?_) ?_ left
  · cases fuel with
    | nil => rfl
    | cons t fuel =>
      change (if isOperatorOf ops eof then _ else _ : Parser Node).run [] = _
      rw [not_isOperatorOf_eof heof]
      rfl
  · intro t t' fuel fuel' left u us ih
    refine run_bind_congr ?_
    rintro _ _ ⟨⟩
    split
    · refine run_bind_congr ?_
      rintro _ _ ⟨⟩
      refine run_bind_congr fun right rest hright => ih _ _ (h.length_le hright)
    · rfl

/-- A statement takes a token, so no round of statements goes by without one. -/
theorem suffices_statements (heof : eof.kind = .eof) (hrules : Sound rules)
    (close : Option String) :
    Suffices (statements eof (statement eof rules n) close) := by
  refine suffices_of_round_unit [] (fun fuel => ?_) ?_
  · cases fuel with
    | nil => rfl
    | cons t fuel =>
      have hend : (eof.kind == TokenKind.eof) = true := beq_iff_eq.mpr heof
      cases close with
      | none =>
        change (if (eof.kind == .eof) || (eof.kind == .eof) then _ else _ :
          Parser (List Node)).run [] = _
        rw [hend]
        rfl
      | some s =>
        change (if eof.is .paren s || (eof.kind == .eof) then _ else _ :
          Parser (List Node)).run [] = _
        rw [hend, Bool.or_true]
        rfl
  · intro t t' fuel fuel' u us ih
    refine run_bind_congr fun closed ts₁ h₁ => ?_
    have h₁ := (blames_closed close).length_le h₁
    refine run_bind_congr ?_
    rintro _ _ ⟨⟩
    split
    · rfl
    · refine run_bind_congr fun first ts₂ h₂ => ?_
      have h₂ := (ensures_statement heof hrules first ts₂ h₂).length.2 rfl
      refine run_bind_congr ?_
      rintro _ _ ⟨⟩
      refine run_bind_congr fun closed ts₃ h₃ => ?_
      have h₃ := (blames_closed close).length_le h₃
      split
      · refine run_bind_congr fun _ rest h₄ => ?_
        have h₄ := (@blames_skipNewlines eof).length_le h₄
        rw [List.length_cons] at h₁
        rw [StateT.run_bind, StateT.run_bind, ih rest (by omega)]
      · rfl

theorem suffices_moreParameters (heof : eof.kind = .eof) : Suffices (moreParameters eof) := by
  refine suffices_of_round_unit [] (fun fuel => ?_) ?_
  · cases fuel with
    | nil => rfl
    | cons t fuel => exact run_ifSees_nil heof (by decide) _ _
  · intro t t' fuel fuel' u us ih
    refine run_bind_congr ?_
    rintro _ _ ⟨⟩
    split
    · refine run_bind_congr ?_
      rintro _ _ ⟨⟩
      refine run_bind_congr fun _ ts₁ h₁ => run_bind_congr fun name ts₂ h₂ => ?_
      refine run_bind_congr fun _ rest h₃ => ?_
      have h₁ := (@blames_skipNewlines eof).length_le h₁
      have h₂ := blames_consumeIdentifier.length_le h₂
      have h₃ := (@blames_skipNewlines eof).length_le h₃
      rw [StateT.run_bind, StateT.run_bind, ih rest (by omega)]
    · rfl

section

variable (heof : eof.kind = .eof) (h : rules.Blames eof)
include heof h

theorem suffices_moreArguments : Suffices (moreArguments eof rules n) := by
  refine suffices_of_round_unit [] (fun fuel => ?_) ?_
  · cases fuel with
    | nil => rfl
    | cons t fuel => exact run_ifSees_nil heof (by decide) _ _
  · intro t t' fuel fuel' u us ih
    refine run_bind_congr ?_
    rintro _ _ ⟨⟩
    split
    · refine run_bind_congr ?_
      rintro _ _ ⟨⟩
      refine run_bind_congr fun e rest he => ?_
      rw [StateT.run_bind, StateT.run_bind, ih rest ((blames_bracketed h).length_le he)]
    · rfl

theorem suffices_postfixes (node : Node) :
    Suffices fun fuel => postfixes eof rules n fuel node := by
  refine suffices_of_round (postfixes eof rules n) id (fun fuel node => ?_) ?_ node
  · cases fuel with
    | nil => rfl
    | cons t fuel =>
      rw [postfixes, run_ifSees_nil heof (by decide)]
      exact run_ifSees_nil heof (by decide) _ _
  · intro t t' fuel fuel' node u us ih
    refine run_bind_congr ?_
    rintro _ _ ⟨⟩
    split
    · refine run_bind_congr ?_
      rintro _ _ ⟨⟩
      refine run_bind_congr fun args ts₁ h₁ => run_bind_congr fun closing rest h₂ => ih _ _ ?_
      have h₁ := (blames_arguments h ")").length_le h₁
      have h₂ := blames_consume.length_le h₂
      omega
    · refine run_bind_congr ?_
      rintro _ _ ⟨⟩
      split
      · refine run_bind_congr ?_
        rintro _ _ ⟨⟩
        refine run_bind_congr fun index ts₁ h₁ => ?_
        have h₁ := (blames_bracketed h).length_le h₁
        refine run_bind_congr ?_
        rintro _ _ ⟨⟩
        split
        · refine run_bind_congr fun _ ts₂ h₂ => run_bind_congr fun upTo ts₃ h₃ => ?_
          refine run_bind_congr fun closing rest h₄ => ih _ _ ?_
          have h₂ := blames_advance.length_le h₂
          have h₃ := (blames_bracketed h).length_le h₃
          have h₄ := blames_consume.length_le h₄
          omega
        · refine run_bind_congr fun closing rest h₄ => ih _ _ ?_
          have h₄ := blames_consume.length_le h₄
          omega
      · rfl

theorem suffices_moreCases : Suffices (moreCases eof rules n) := by
  refine suffices_of_round_unit ([], none) (fun fuel => ?_) ?_
  · cases fuel with
    | nil => rfl
    | cons t fuel =>
      change (if eof.is .keyword "elif" then _ else _ :
        Parser (List (Node × Node) × Option Node)).run [] = _
      rw [Token.is_of_kind heof (by decide)]
      change (if eof.is .keyword "else" then _ else _ :
        Parser (List (Node × Node) × Option Node)).run [] = _
      rw [Token.is_of_kind heof (by decide)]
      rfl
  · intro t t' fuel fuel' u us ih
    refine run_bind_congr ?_
    rintro _ _ ⟨⟩
    dsimp only
    split
    · refine run_bind_congr fun _ ts₁ h₁ => run_bind_congr fun word ts₂ h₂ => ?_
      have h₁ := (@blames_skipNewlines eof).length_le h₁
      have h₂ := length_of_advance h₂
      refine run_bind_congr fun condition ts₃ h₃ => run_bind_congr fun guarded rest h₄ => ?_
      have h₃ := (h.expression n).length_le h₃
      have h₄ := (blames_body h).length_le h₄
      rw [List.length_cons] at h₁
      rw [StateT.run_bind, StateT.run_bind, ih rest (by omega)]
    · rfl

end

/-- The loops of all rules, for any token that they may start at. -/
structure Rules.Sufficient (eof : Token) (rules : Rules) : Prop where
  statements : ∀ n close, Suffices (statements eof (statement eof rules n) close)
  chain : ∀ n tighter ops left,
    Suffices fun fuel => chain eof (binary eof rules n tighter) ops fuel left
  moreArguments : ∀ n, Suffices (moreArguments eof rules n)
  postfixes : ∀ n node, Suffices fun fuel => postfixes eof rules n fuel node
  moreCases : ∀ n, Suffices (moreCases eof rules n)
  moreParameters : Suffices (moreParameters eof)

theorem sufficient_upTo (heof : eof.kind = .eof) (depth : Nat) :
    (Rules.upTo eof depth).Sufficient eof where
  statements _ close :=
    suffices_statements heof (sound_upTo heof depth) close
  chain _ tighter ops left :=
    suffices_chain heof (blames_binary (blames_upTo eof depth) tighter) ops left
  moreArguments _ := suffices_moreArguments heof (blames_upTo eof depth)
  postfixes _ node := suffices_postfixes heof (blames_upTo eof depth) node
  moreCases _ := suffices_moreCases heof (blames_upTo eof depth)
  moreParameters := suffices_moreParameters heof

end Lumen.Parser
