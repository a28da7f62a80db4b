import Lumen.Proofs.Parser.Runs
import Lumen.Proofs.Parser.Soundness

/-!
# The lookahead for an assignment to an element

Behind a name and an opening bracket the parser has to know whether an assignment follows, and scans
for the bracket that closes it. The scan counts brackets of all kinds alike, the rules take them in
pairs; yet both come to the same bracket, since every phrase closes the brackets that it opens.
-/

namespace Lumen.Parser

open Grammar (Newlines Derives Closed closingAt)

variable {eof t u : Token} {ts rest : List Token} {rules : Rules} {n : Nesting}

/-! ## The loop -/

/-- A loop that goes round this often and stops with the answer. -/
inductive StopsWith {σ α : Type} (round : σ → α ⊕ σ) : σ → Nat → α → Prop where
  | now {s : σ} {a : α} : round s = .inl a → StopsWith round s 1 a
  | later {s s' : σ} {k : Nat} {a : α} : round s = .inr s' → StopsWith round s' k a →
    StopsWith round s (k + 1) a

/-- One round of the lookahead at the token `offset` behind the next one, with `depth` brackets
open. Behind the last token there is the end of the text, however far the offset goes. -/
def lookRound (eof : Token) (ts : List Token) : Nat × Int → Bool ⊕ (Nat × Int)
  | (offset, depth) =>
    let t := ts.getD offset eof
    if t.kind == .eof then .inl false
    else if t.isOpening then .inr (offset + 1, depth + 1)
    else if t.isClosing then
      if depth - 1 = 0 then .inl ((ts.getD (offset + 1) eof).is .operator "=")
      else .inr (offset + 1, depth - 1)
    else .inr (offset + 1, depth)

theorem getD_of_drop {offset : Nat} {us : List Token} (h : ts.drop offset = us) :
    ts.getD offset eof = us.headD eof := by
  rw [List.getD_eq_getElem?_getD, ← List.head?_drop, h, List.headD_eq_head?_getD]

theorem drop_succ {offset : Nat} {us : List Token} (h : ts.drop offset = t :: us) :
    ts.drop (offset + 1) = us := by
  rw [← List.drop_drop, h, List.drop_one, List.tail_cons]

theorem lookRound_of_drop (eof : Token) {offset : Nat} {us : List Token}
    (h : ts.drop offset = t :: us) (hkind : t.kind ≠ .eof) (depth : Int) :
    lookRound eof ts (offset, depth) =
      if t.isOpening then .inr (offset + 1, depth + 1)
      else if t.isClosing then
        if depth - 1 = 0 then .inl ((us.headD eof).is .operator "=")
        else .inr (offset + 1, depth - 1)
      else .inr (offset + 1, depth) := by
  rw [lookRound, getD_of_drop h, getD_of_drop (drop_succ h), List.headD_cons,
    if_neg (by simpa using hkind)]

/-- With a bracket open the loop goes round once for each token that is left, and once more. -/
theorem stopsWith_lookRound (heof : eof.kind = .eof) (htokens : ∀ t ∈ ts, t.kind ≠ .eof)
    {us : List Token} {offset depth : Nat} (hus : ts.drop offset = us) (hdepth : 0 < depth) :
    ∃ k ≤ us.length + 1, StopsWith (lookRound eof ts) (offset, (depth : Int)) k
      (assignsBehind depth us) := by
  induction us generalizing offset depth with
  | nil =>
    refine ⟨1, Nat.le_refl _, .now ?_⟩
    rw [lookRound, getD_of_drop hus, List.headD_nil, heof]
    rfl
  | cons t us ih =>
    have hnext := drop_succ hus
    have hkind : t.kind ≠ .eof := htokens t (List.mem_of_mem_drop (hus ▸ List.mem_cons_self))
    have hround := lookRound_of_drop eof hus hkind depth
    have hlater {depth' : Nat} {b : Bool} (hdepth' : 0 < depth')
        (hstep : lookRound eof ts (offset, (depth : Int)) = .inr (offset + 1, (depth' : Int)))
        (hb : assignsBehind depth' us = b) :
        ∃ k ≤ (t :: us).length + 1, StopsWith (lookRound eof ts) (offset, (depth : Int)) k b := by
      obtain ⟨k, hk, hstops⟩ := ih hnext hdepth'
      exact ⟨k + 1, Nat.succ_le_succ hk, .later hstep (hb ▸ hstops)⟩
    cases hopening : t.isOpening with
    | true =>
      rw [hopening, if_pos rfl] at hround
      refine hlater (Nat.succ_pos depth) hround ?_
      rw [Grammar.assignsBehind_opening hopening]
    | false =>
      rw [hopening, if_neg Bool.false_ne_true] at hround
      rw [assignsBehind, hopening, if_neg Bool.false_ne_true]
      cases hclosing : t.isClosing with
      | false =>
        rw [hclosing, if_neg Bool.false_ne_true] at hround
        exact hlater hdepth hround rfl
      | true =>
        rw [hclosing, if_pos rfl] at hround
        rw [if_pos rfl]
        by_cases hlast : depth ≤ 1
        · obtain rfl : depth = 1 := by omega
          refine ⟨1, Nat.succ_le_succ (Nat.zero_le _), .now ?_⟩
          rw [hround, if_pos (by omega), headD_is heof (by decide), if_pos hlast]
        · rw [if_neg (by omega), ← Nat.cast_pred hdepth] at hround
          rw [if_neg hlast]
          exact hlater (by omega) hround rfl

/-- From the opening bracket on, the loop stops within as many rounds as there are tokens. -/
theorem exists_stopsWith (heof : eof.kind = .eof) (htokens : ∀ t' ∈ t :: u :: rest, t'.kind ≠ .eof)
    (hu : u.isOpening) : ∃ k ≤ rest.length + 2,
      StopsWith (lookRound eof (t :: u :: rest)) (1, 0) k (assignsBehind 0 (u :: rest)) := by
  have hdrop : (t :: u :: rest).drop 2 = rest := rfl
  obtain ⟨k, hk, hstops⟩ := stopsWith_lookRound heof htokens hdrop Nat.one_pos
  have hround : lookRound eof (t :: u :: rest) (1, 0) = .inr (2, 1) := by
    have hkind : u.kind ≠ .eof := htokens u (by simp)
    simp [lookRound, hkind, hu]
  rw [Grammar.assignsBehind_opening hu]
  exact ⟨k + 1, Nat.succ_le_succ hk, .later hround hstops⟩

/-! ## The brackets of the two readings -/

section

variable (eof) (rules) (n)

def element : Parser (Node × Token) := do
  let index ← bracketed rules n
  let closing ← consume eof .paren "]"
  return (index, closing)

def subscript : Parser (Node × Option Node × Token) := do
  let index ← bracketed rules n
  let mut upTo := none
  if ← sees eof .operator ":" then
    let _ ← advance eof
    upTo := some (← bracketed rules n)
  let closing ← consume eof .paren "]"
  return (index, upTo, closing)

end

/-- The tokens lead through what stands in square brackets to the closing one. -/
theorem closingAt_bracketed {ts₁ ts₂ : List Token} {v : Token} {i : Node} (hu : u.is .paren "[")
    (h₁ : Newlines ts ts₁) (hi : Reads .expression n ts₁ i ts₂) (h₂ : Newlines ts₂ (v :: rest))
    (hv : v.is .paren "]") : closingAt 0 (u :: ts) = some (v :: rest) := by
  rw [Grammar.closingAt_opening (by simp [Token.isOpening, hu]), h₁.closed 1 Nat.one_pos,
    hi.closed 1 Nat.one_pos, h₂.closed 1 Nat.one_pos,
    Grammar.closingAt_last (by simp [Token.isClosing, hv])]

theorem ensures_element (heof : eof.kind = .eof) (hrules : Sound rules) (hu : u.is .paren "[") :
    Ensures (element eof rules n) ts fun result rest =>
      closingAt 0 (u :: ts) = some (result.2 :: rest) := by
  refine Ensures.bind ((ensures_bracketed hrules).mono ?_)
  rintro i ts₃ ⟨ts₁, ts₂, h₁, hi, h₂⟩
  refine Ensures.bind (ensures_consume heof (by decide) ?_)
  rintro v rest rfl hv
  exact Ensures.pure (closingAt_bracketed hu h₁ hi h₂ hv)

theorem ensures_subscript (heof : eof.kind = .eof) (hrules : Sound rules) (hu : u.is .paren "[") :
    Ensures (subscript eof rules n) ts fun result rest =>
      closingAt 0 (u :: ts) = some (result.2.2 :: rest) := by
  refine Ensures.bind ((ensures_bracketed hrules).mono ?_)
  rintro i ts₃ ⟨ts₁, ts₂, h₁, hi, h₂⟩
  refine ensures_ifSees heof (by decide) ?_ fun _ => ?_
  · rintro colon ts₄ rfl hcolon
    refine Ensures.bind (ensures_advance ?_)
    refine Ensures.bind ((ensures_bracketed hrules).mono ?_)
    rintro j ts₇ ⟨ts₅, ts₆, h₅, hj, h₆⟩
    refine Ensures.bind (ensures_consume heof (by decide) ?_)
    rintro v rest rfl hv
    refine Ensures.pure ?_
    have hkind := Token.kind_of_is hcolon
    rw [Grammar.closingAt_opening (by simp [Token.isOpening, hu]), h₁.closed 1 Nat.one_pos,
      hi.closed 1 Nat.one_pos, h₂.closed 1 Nat.one_pos,
      Grammar.closingAt_of_kind (by simp [hkind])]
    rw [← closingAt_bracketed hu h₅ hj h₆ hv,
      Grammar.closingAt_opening (by simp [Token.isOpening, hu])]
  · refine Ensures.bind (ensures_consume heof (by decide) ?_)
    rintro v rest rfl hv
    exact Ensures.pure (closingAt_bracketed hu h₁ hi h₂ hv)

/-! ## The two readings -/

/-- Where the lookahead finds an assignment, the brackets are read and then the value. -/
theorem run_expression_of_assigns (ht : t.kind = .identifier) (hu : u.is .paren "[")
    (hassigns : assignsBehind 0 (u :: rest) = true) :
    (Parser.expression eof rules n).run (t :: u :: rest) =
      (do
        let (index, _) ← element eof rules n
        let _ ← consume eof .operator "="
        return .assignIndex t index (← rules.expression n) : Parser Node).run rest := by
  have hequals : u.is .operator "=" = false := by simp [Token.is_of_is hu]
  unfold Parser.expression element
  rw [bind_assoc]
  simp [ht, hu, hequals, hassigns]

/-- Where it finds none, the text is read as any other expression. -/
theorem run_expression_of_not_assigns (hu : u.is .paren "[")
    (hassigns : assignsBehind 0 (u :: rest) = false) :
    (Parser.expression eof rules n).run (t :: u :: rest) =
      (ternary eof rules n).run (t :: u :: rest) := by
  have hequals : u.is .operator "=" = false := by simp [Token.is_of_is hu]
  unfold Parser.expression
  simp [hequals, hassigns]

/-- Any other expression starts with a unary one. -/
theorem exists_ternary_eq (eof : Token) (rules : Rules) (n : Nesting) :
    ∃ k, ternary eof rules n = rules.unary n >>= k := by
  have hbinary (ops : List (List String)) : ∃ k, binary eof rules n ops = rules.unary n >>= k := by
    induction ops with
    | nil => exact ⟨pure, (bind_pure _).symm⟩
    | cons ops tighter ih =>
      obtain ⟨k, hk⟩ := ih
      exact ⟨_, by rw [binary, hk, bind_assoc]⟩
  obtain ⟨k, hk⟩ := hbinary levels
  exact ⟨_, by rw [ternary, hk, bind_assoc]⟩

section

variable {α : Type} {kind : TokenKind} {s : String}

theorem run_ifSees_of_is (h : t.is kind s) (x y : Parser α) :
    (do if ← sees eof kind s then x else y).run (t :: ts) = x.run (t :: ts) := by
  have hsees : (sees eof kind s).run (t :: ts) = .ok (t.is kind s, t :: ts) := rfl
  rw [StateT.run_bind, hsees, h]
  rfl

theorem run_ifSees_of_not_is (h : t.is kind s = false) (x y : Parser α) :
    (do if ← sees eof kind s then x else y).run (t :: ts) = y.run (t :: ts) := by
  have hsees : (sees eof kind s).run (t :: ts) = .ok (t.is kind s, t :: ts) := rfl
  rw [StateT.run_bind, hsees, h]
  rfl

theorem run_advance_bind (f : Token → Parser α) :
    (advance eof >>= f).run (t :: ts) = (f t).run ts := rfl

end

/-- A bracket behind a phrase is read as a subscript. -/
theorem run_postfixes_of_bracket (hu : u.is .paren "[") (fuel : List Token) (a : Node) :
    (postfixes eof rules n (t :: fuel) a).run (u :: rest) =
      (do
        let (index, upTo, closing) ← subscript eof rules n
        postfixes eof rules n fuel (.index a index upTo closing.stop) : Parser Node).run rest := by
  have hround : u.is .paren "(" = false := by simp [Token.is_of_is hu]
  rw [postfixes, run_ifSees_of_not_is hround, run_ifSees_of_is hu, run_advance_bind]
  unfold subscript
  rw [bind_assoc]
  congr 1
  refine bind_congr fun index => ?_
  dsimp only
  rw [bind_assoc]
  refine bind_congr fun colon => ?_
  cases colon <;> simp

/-- A name with a bracket behind it is read as an index read. -/
theorem run_unary_of_name (ht : t.kind = .identifier) (hu : u.is .paren "[") :
    (Parser.unary eof rules n).run (t :: u :: rest) =
      (do
        let (index, upTo, closing) ← subscript eof rules n
        postfixes eof rules n rest (.index (.lookup t) index upTo closing.stop) : Parser Node).run
        rest := by
  have hsign : isOperatorOf unaryOperators t = false := by
    rw [Bool.eq_false_iff]
    intro h
    cases ht.symm.trans (Grammar.kind_of_isSign h)
  have hunary : (Parser.unary eof rules n).run (t :: u :: rest) = (do
      let node ← primary eof rules n
      postfixes eof rules n (← get) node : Parser Node).run (t :: u :: rest) := by
    have hpeek : (peek eof).run (t :: u :: rest) = .ok (t, t :: u :: rest) := rfl
    rw [Parser.unary, StateT.run_bind, hpeek]
    change StateT.run (if isOperatorOf unaryOperators t then _ else _) _ = _
    rw [hsign]
    rfl
  have hprimary : (primary eof rules n).run (t :: u :: rest) = .ok (.lookup t, u :: rest) := by
    unfold primary peek advance
    simp [ht]
    rfl
  rw [hunary, StateT.run_bind, hprimary]
  exact run_postfixes_of_bracket (t := u) hu rest (.lookup t)

/-! ## Agreement -/

/-- What the lookahead finds behind a name with a bracket is what the parser finds there. -/
structure Foresight (eof : Token) (n : Nesting) (t u : Token) (rest : List Token) : Prop where
  /-- The lookahead stops, within as many rounds as there are tokens. -/
  stops : ∃ k ≤ rest.length + 2,
    StopsWith (lookRound eof (t :: u :: rest)) (1, 0) k (assignsBehind 0 (u :: rest))
  /-- If an assignment is found, the brackets are read and then the sign and the value. -/
  assigns : assignsBehind 0 (u :: rest) = true → ∀ depth,
    (Parser.expression eof (.upTo eof depth) n).run (t :: u :: rest) =
      (do
        let (index, _) ← element eof (.upTo eof depth) n
        let _ ← consume eof .operator "="
        return .assignIndex t index (← (Rules.upTo eof depth).expression n) : Parser Node).run rest
  /-- Once the closing bracket is read, it is the one that was found, and the sign is there. -/
  assigned : assignsBehind 0 (u :: rest) = true → ∀ depth,
    Ensures (element eof (.upTo eof depth) n) rest fun result behind =>
      closingAt 0 (u :: rest) = some (result.2 :: behind) ∧
        ∃ v us, behind = v :: us ∧ (consume eof .operator "=").run behind = .ok (v, us)
  /-- If none is found, the text is read as another expression, which starts with a unary one. -/
  reads : assignsBehind 0 (u :: rest) = false → ∀ depth, ∃ k,
    (Parser.expression eof (.upTo eof depth) n).run (t :: u :: rest) =
      ((Rules.upTo eof depth).unary n >>= k).run (t :: u :: rest)
  /-- That is an index read, which goes on behind the closing bracket. -/
  subscript : ∀ depth, (Parser.unary eof (.upTo eof depth) n).run (t :: u :: rest) =
    (do
      let (index, upTo, closing) ← Parser.subscript eof (.upTo eof depth) n
      postfixes eof (.upTo eof depth) n rest (.index (.lookup t) index upTo closing.stop) :
      Parser Node).run rest
  /-- Once the closing bracket is read, it is the one that was found, and no sign is there. -/
  read : assignsBehind 0 (u :: rest) = false → ∀ depth,
    Ensures (Parser.subscript eof (.upTo eof depth) n) rest fun result behind =>
      closingAt 0 (u :: rest) = some (result.2.2 :: behind) ∧
        (behind.headD eof).is .operator "=" = false

/-- The lookahead stops, and the bracket that it finds is the one that the parser comes to, whether
an assignment is found behind it or not. -/
theorem foresight_of_name (heof : eof.kind = .eof) (htokens : ∀ t' ∈ t :: u :: rest, t'.kind ≠ .eof)
    (ht : t.kind = .identifier) (hu : u.is .paren "[") : Foresight eof n t u rest where
  stops := exists_stopsWith heof htokens (by simp [Token.isOpening, hu])
  assigns hassigns _ := run_expression_of_assigns ht hu hassigns
  assigned hassigns depth := by
    refine (ensures_element heof (sound_upTo heof depth) hu).mono fun result behind hclosing => ?_
    rw [Grammar.assignsBehind_eq, hclosing] at hassigns
    refine ⟨hclosing, ?_⟩
    cases behind with
    | nil => cases hassigns
    | cons v us =>
      have hv : v.is .operator "=" := hassigns
      exact ⟨v, us, rfl, run_ifSees_of_is hv _ _⟩
  reads hassigns depth := by
    obtain ⟨k, hk⟩ := exists_ternary_eq eof (.upTo eof depth) n
    exact ⟨k, by rw [run_expression_of_not_assigns hu hassigns, hk]⟩
  subscript _ := run_unary_of_name ht hu
  read hassigns depth := by
    refine (ensures_subscript heof (sound_upTo heof depth) hu).mono fun result behind hclosing => ?_
    rw [Grammar.assignsBehind_eq, hclosing] at hassigns
    exact ⟨hclosing, (headD_is heof (by decide) "=" behind).trans hassigns⟩

/-- A name with an index in brackets of the other kind, and a sign behind it. -/
theorem foresight_of_name_nested :
    let p : Position := ⟨"f", 1, 1, 0⟩
    let word (kind : TokenKind) (s : String) : Token := ⟨kind, .text s, p, p⟩
    let eof : Token := ⟨.eof, .null, p, p⟩
    let t := word .identifier "a"
    let u := word .paren "["
    let rest := [word .paren "(", word .identifier "b", word .paren ")", word .paren "]",
      word .operator "=", word .identifier "c"]
    eof.kind = .eof ∧ (∀ t' ∈ t :: u :: rest, t'.kind ≠ .eof) ∧ t.kind = .identifier ∧
      u.is .paren "[" ∧ assignsBehind 0 (u :: rest) = true ∧ Foresight eof .program t u rest := by
  intro p word eof t u rest
  have htokens : ∀ t' ∈ t :: u :: rest, t'.kind ≠ .eof := by decide
  exact ⟨rfl, htokens, rfl, rfl, by decide, foresight_of_name rfl htokens rfl rfl⟩

end Lumen.Parser
