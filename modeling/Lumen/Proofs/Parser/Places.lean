import Lumen.Proofs.Node.Move
import Lumen.Run

/-!
# Parsers do not look at places

Two lists of tokens that differ in nothing but their places are taken alike: the same nodes but for
their places, or a refusal of the same wording, or too deep a nesting of both. There is one lemma
for each rule, given the same of what parses nested phrases.
-/

namespace Lumen

def SameWords (ts ts' : List Token) : Prop := ts.map Token.erase = ts'.map Token.erase

namespace SameWords

variable {t t' eof eof' : Token} {ts ts' us : List Token}

theorem nil : SameWords [] [] := rfl

theorem cons (ht : t.erase = t'.erase) (h : SameWords ts ts') : SameWords (t :: ts) (t' :: ts') := by
  rw [SameWords, List.map_cons, List.map_cons, ht, h]

/-- What starts with a word starts with that word. -/
theorem of_cons (h : SameWords (t :: us) ts') :
    ∃ t' us', ts' = t' :: us' ∧ t.erase = t'.erase ∧ SameWords us us' := by
  obtain ⟨t', us', rfl, ht, hus⟩ := List.map_eq_cons_iff.mp h.symm
  exact ⟨t', us', rfl, ht.symm, hus.symm⟩

theorem of_nil (h : SameWords [] ts') : ts' = [] := List.map_eq_nil_iff.mp h.symm

theorem headD (h : SameWords ts ts') (heof : eof.erase = eof'.erase) :
    (ts.headD eof).erase = (ts'.headD eof').erase := by
  cases ts with
  | nil =>
    obtain rfl := h.of_nil
    exact heof
  | cons t ts =>
    obtain ⟨t', ts', rfl, ht, -⟩ := h.of_cons
    exact ht

end SameWords

namespace Token

variable {t t' : Token}

theorem is_eq_of_erase (h : t.erase = t'.erase) (k : TokenKind) (s : String) :
    t.is k s = t'.is k s := by
  obtain ⟨hkind, hvalue⟩ := (erase_eq_erase_iff t t').mp h
  rw [is, is, hkind, hvalue]

theorem kind_eq_of_erase (h : t.erase = t'.erase) : t.kind = t'.kind :=
  ((erase_eq_erase_iff t t').mp h).1

theorem isNewline_eq_of_erase (h : t.erase = t'.erase) : t.isNewline = t'.isNewline := by
  rw [isNewline, isNewline, kind_eq_of_erase h]

theorem isOpening_eq_of_erase (h : t.erase = t'.erase) : t.isOpening = t'.isOpening := by
  simp only [isOpening, is_eq_of_erase h]

theorem isClosing_eq_of_erase (h : t.erase = t'.erase) : t.isClosing = t'.isClosing := by
  simp only [isClosing, is_eq_of_erase h]

end Token

theorem SameWords.dropWhile {ts ts' : List Token} (h : SameWords ts ts') :
    SameWords (ts.dropWhile Token.isNewline) (ts'.dropWhile Token.isNewline) := by
  induction ts generalizing ts' with
  | nil =>
    obtain rfl := h.of_nil
    exact .nil
  | cons t ts ih =>
    obtain ⟨t', ts', rfl, ht, hts⟩ := h.of_cons
    rw [List.dropWhile_cons, List.dropWhile_cons, ← Token.isNewline_eq_of_erase ht]
    split
    · exact ih hts
    · exact .cons ht hts

theorem SameWords.openBrackets_eq {s s' : TokenStream} (h : SameWords s.tokens s'.tokens) :
    s.openBrackets = s'.openBrackets := by
  have herase (ts : List Token) :
      ts.map Token.bracketStep = (ts.map Token.erase).map Token.bracketStep := by
    rw [List.map_map]
    rfl
  rw [TokenStream.openBrackets, TokenStream.openBrackets, herase s.tokens, herase s'.tokens, h]

namespace Parser

variable {α β : Type} {eof eof' : Token} {rules rules' : Rules} {n : Nesting}
  {R : α → α → Prop} {T : β → β → Prop}

theorem assignsBehind_eq {ts ts' : List Token} (h : SameWords ts ts') (depth : Nat) :
    assignsBehind depth ts = assignsBehind depth ts' := by
  induction ts generalizing ts' depth with
  | nil =>
    obtain rfl := h.of_nil
    rfl
  | cons t ts ih =>
    obtain ⟨t', ts', rfl, ht, hts⟩ := h.of_cons
    have hhead : ts.head?.any (·.is .operator "=") = ts'.head?.any (·.is .operator "=") := by
      cases ts with
      | nil =>
        obtain rfl := hts.of_nil
        rfl
      | cons u ts =>
        obtain ⟨u', ts', rfl, hu, -⟩ := hts.of_cons
        exact Token.is_eq_of_erase hu _ _
    rw [assignsBehind, assignsBehind, Token.isOpening_eq_of_erase ht,
      Token.isClosing_eq_of_erase ht, hhead, ih hts, ih hts, ih hts]

theorem isOperatorOf_eq {t t' : Token} (h : t.erase = t'.erase) (ops : List String) :
    isOperatorOf ops t = isOperatorOf ops t' := by
  simp only [isOperatorOf, Token.is_eq_of_erase h]

/-- The same result but for places, and the same words left. -/
inductive Agree (R : α → α → Prop) :
    Except Failure (α × List Token) → Except Failure (α × List Token) → Prop where
  | ok {a a' rest rest'} : R a a' → SameWords rest rest' → Agree R (.ok (a, rest)) (.ok (a', rest'))
  | refused {c s s'} : Agree R (.error (.refused ⟨c, s⟩)) (.error (.refused ⟨c, s'⟩))
  | tooDeep {s s'} : Agree R (.error (.tooDeep s)) (.error (.tooDeep s'))

def Blind (R : α → α → Prop) (x x' : Parser α) : Prop :=
  ∀ ts ts', SameWords ts ts' → Agree R (x.run ts) (x'.run ts')

/-- The same node but for its places. -/
abbrev SameNode (e e' : Node) : Prop := e.erase = e'.erase

/-- The same nodes but for their places. -/
abbrev SameNodes (es es' : List Node) : Prop := es.map Node.erase = es'.map Node.erase

abbrev SameToken (t t' : Token) : Prop := t.erase = t'.erase

namespace Blind

variable {x x' y y' : Parser α}

theorem pure {a a' : α} (h : R a a') : Blind R (Pure.pure a) (Pure.pure a') :=
  fun _ _ hts => .ok h hts

theorem giveUp : Blind R (Parser.giveUp eof) (Parser.giveUp eof') := fun _ _ _ => .tooDeep

theorem bind {f f' : α → Parser β} (hx : Blind R x x') (hf : ∀ a a', R a a' → Blind T (f a) (f' a')) :
    Blind T (x >>= f) (x' >>= f') := by
  intro ts ts' hts
  rw [StateT.run_bind, StateT.run_bind]
  have hr := hx ts ts' hts
  generalize x.run ts = r at hr ⊢
  generalize x'.run ts' = r' at hr ⊢
  cases hr with
  | ok ha hrest => exact hf _ _ ha _ _ hrest
  | refused => exact .refused
  | tooDeep => exact .tooDeep

theorem ite {c c' : Prop} [Decidable c] [Decidable c'] (hc : c ↔ c') (hx : Blind R x x')
    (hy : Blind R y y') : Blind R (if c then x else y) (if c' then x' else y') := by
  by_cases h : c
  · rw [if_pos h, if_pos (hc.mp h)]
    exact hx
  · rw [if_neg h, if_neg (mt hc.mpr h)]
    exact hy

/-- Both go the same way on an answer that is the same. -/
theorem test {b b' : Parser Bool} (hb : Blind Eq b b') (hx : Blind R x x') (hy : Blind R y y') :
    Blind R (do if ← b then x else y) (do if ← b' then x' else y') := by
  refine hb.bind fun a a' h => ?_
  subst h
  exact ite Iff.rfl hx hy

end Blind

/-! ## Single tokens -/

section

variable (heof : eof.erase = eof'.erase)
include heof

theorem blind_peek : Blind SameToken (peek eof) (peek eof') :=
  fun _ _ hts => .ok (hts.headD heof) hts

theorem blind_advance : Blind SameToken (advance eof) (advance eof') := by
  intro ts ts' hts
  cases ts with
  | nil =>
    obtain rfl := hts.of_nil
    exact .ok heof .nil
  | cons t ts =>
    obtain ⟨t', ts', rfl, ht, hts⟩ := hts.of_cons
    exact .ok ht hts

theorem blind_sees (k : TokenKind) (s : String) : Blind Eq (sees eof k s) (sees eof' k s) :=
  fun _ _ hts => .ok (Token.is_eq_of_erase (hts.headD heof) k s) hts

theorem blind_seesKind (k : TokenKind) : Blind Eq (seesKind eof k) (seesKind eof' k) := by
  intro ts ts' hts
  have hkind := Token.kind_eq_of_erase (hts.headD heof)
  exact .ok (congrArg (· == k) hkind) hts

theorem blind_endsReturn : Blind Eq (endsReturn eof) (endsReturn eof') := by
  intro ts ts' hts
  have ht := hts.headD heof
  refine .ok ?_ hts
  simp only [Token.kind_eq_of_erase ht, Token.is_eq_of_erase ht]

omit heof in
theorem blind_refuse {c : Complaint} : Blind R (refuse eof c) (refuse eof' c) :=
  fun _ _ _ => .refused

omit heof in
theorem blind_skipNewlines : Blind Eq skipNewlines skipNewlines := fun _ _ hts => .ok rfl hts.dropWhile

omit heof in
theorem blind_get : Blind SameWords get get := fun _ _ hts => .ok hts hts

theorem blind_consume (k : TokenKind) (s : String) :
    Blind SameToken (consume eof k s) (consume eof' k s) :=
  (blind_sees heof k s).test (blind_advance heof) blind_refuse

theorem blind_consumeIdentifier (what : String) :
    Blind SameToken (consumeIdentifier eof what) (consumeIdentifier eof' what) :=
  (blind_seesKind heof _).test (blind_advance heof) blind_refuse

end

/-- The nested phrases are taken alike. -/
structure Rules.Blind (rules rules' : Rules) : Prop where
  expression : ∀ n, Parser.Blind SameNode (rules.expression n) (rules'.expression n)
  unary : ∀ n, Parser.Blind SameNode (rules.unary n) (rules'.unary n)

section

variable (heof : eof.erase = eof'.erase)
include heof

/-! ## Rules that repeat -/

/-- Whether the next token ends the statements. -/
theorem blind_closed (close : Option String) :
    Blind Eq
      (match close with
        | some s => sees eof .paren s
        | none => seesKind eof .eof)
      (match close with
        | some s => sees eof' .paren s
        | none => seesKind eof' .eof) := by
  cases close with
  | some s => exact blind_sees heof .paren s
  | none => exact blind_seesKind heof .eof

theorem blind_statements {statement statement' : Parser Node}
    (h : Blind SameNode statement statement') (close : Option String) {fuel fuel' : List Token}
    (hfuel : SameWords fuel fuel') :
    Blind SameNodes (statements eof statement close fuel)
      (statements eof' statement' close fuel') := by
  have hclosed := blind_closed heof close
  induction fuel generalizing fuel' with
  | nil =>
    obtain rfl := hfuel.of_nil
    exact .pure rfl
  | cons _ fuel ih =>
    obtain ⟨_, fuel', rfl, -, hfuel⟩ := hfuel.of_cons
    have hrest {first first' : Node} (hfirst : SameNode first first') :
        Blind SameNodes
          (do skipNewlines; return first :: (← statements eof statement close fuel))
          (do skipNewlines; return first' :: (← statements eof' statement' close fuel')) := by
      refine blind_skipNewlines.bind fun _ _ _ => (ih hfuel).bind fun es es' hes => .pure ?_
      rw [SameNodes, List.map_cons, List.map_cons, hfirst, hes]
    refine hclosed.bind fun a a' ha => (blind_seesKind heof _).bind fun b b' hb => ?_
    subst ha hb
    refine .ite Iff.rfl (.pure rfl) (h.bind fun first first' hfirst => ?_)
    refine (blind_seesKind heof _).bind fun a a' ha => hclosed.bind fun b b' hb => ?_
    subst ha hb
    exact .ite Iff.rfl (hrest hfirst) (blind_refuse.bind fun _ _ (_ : True) => hrest hfirst)

theorem blind_chain {operand operand' : Parser Node} (h : Blind SameNode operand operand')
    (ops : List String) {fuel fuel' : List Token} (hfuel : SameWords fuel fuel') {e e' : Node}
    (he : SameNode e e') :
    Blind SameNode (chain eof operand ops fuel e) (chain eof' operand' ops fuel' e') := by
  induction fuel generalizing fuel' e e' with
  | nil =>
    obtain rfl := hfuel.of_nil
    exact .pure he
  | cons _ fuel ih =>
    obtain ⟨_, fuel', rfl, -, hfuel⟩ := hfuel.of_cons
    refine (blind_peek heof).bind fun t t' ht => .ite ?_ ?_ (.pure he)
    · rw [isOperatorOf_eq ht]
    · refine (blind_advance heof).bind fun op op' hop => h.bind fun a a' ha => ih hfuel ?_
      rw [SameNode, Node.erase_binary, Node.erase_binary, he, hop, ha]

theorem blind_moreParameters {fuel fuel' : List Token} (hfuel : SameWords fuel fuel') :
    Blind SameWords (moreParameters eof fuel) (moreParameters eof' fuel') := by
  induction fuel generalizing fuel' with
  | nil =>
    obtain rfl := hfuel.of_nil
    exact .pure .nil
  | cons _ fuel ih =>
    obtain ⟨_, fuel', rfl, -, hfuel⟩ := hfuel.of_cons
    refine (blind_sees heof _ _).test ?_ (.pure .nil)
    refine (blind_advance heof).bind fun _ _ _ => blind_skipNewlines.bind fun _ _ _ => ?_
    refine (blind_consumeIdentifier heof _).bind fun t t' ht => ?_
    refine blind_skipNewlines.bind fun _ _ _ => (ih hfuel).bind fun ts ts' hts => ?_
    exact .pure (.cons ht hts)

theorem blind_parameters : Blind SameWords (parameters eof) (parameters eof') := by
  refine (blind_consume heof _ _).bind fun _ _ _ => blind_skipNewlines.bind fun _ _ _ => ?_
  refine (blind_sees heof _ _).bind fun b b' hb => ?_
  subst hb
  refine .ite Iff.rfl ?_ ((blind_consume heof _ _).bind fun _ _ _ => .pure .nil)
  refine (blind_consumeIdentifier heof _).bind fun t t' ht => ?_
  refine blind_skipNewlines.bind fun _ _ _ => blind_get.bind fun fuel fuel' hfuel => ?_
  refine (blind_moreParameters heof hfuel).bind fun ts ts' hts => ?_
  exact (blind_consume heof _ _).bind fun _ _ _ => .pure (.cons ht hts)

end

section

variable (heof : eof.erase = eof'.erase) (h : rules.Blind rules')
include heof h

/-! ## Statements -/

theorem blind_statement :
    Blind SameNode (statement eof rules n) (statement eof' rules' n) := by
  have hreturn {t t' : Token} : Blind SameNode
      (do
        let _ ← advance eof
        if ← endsReturn eof then return Node.giveBack none t.start t.stop
        let value ← rules.expression n
        return Node.giveBack (some value) t.start value.stop)
      (do
        let _ ← advance eof'
        if ← endsReturn eof' then return Node.giveBack none t'.start t'.stop
        let value ← rules'.expression n
        return Node.giveBack (some value) t'.start value.stop) := by
    refine (blind_advance heof).bind fun _ _ _ => (blind_endsReturn heof).test (.pure ?_) ?_
    · rw [SameNode, Node.erase_giveBack, Node.erase_giveBack]
    · refine (h.expression n).bind fun e e' he => .pure ?_
      rw [SameNode, Node.erase_giveBack, Node.erase_giveBack, Option.map_some, Option.map_some, he]
  have hskip {x x' : Parser Node} (hx : Blind SameNode x x') (c : Complaint) :
      Blind SameNode (refuse eof c >>= fun (_ : PUnit) => x)
        (refuse eof' c >>= fun (_ : PUnit) => x') :=
    blind_refuse.bind fun _ _ (_ : True) => hx
  refine (blind_peek heof).bind fun t t' ht => ?_
  have his := Token.is_eq_of_erase ht .keyword
  refine .ite (by rw [his]) (.ite Iff.rfl (hskip hreturn _) hreturn) (.ite (by rw [his]) ?_ ?_)
  · have hbreak : Blind SameNode (advance eof >>= fun t => pure (Node.breakLoop t))
        (advance eof' >>= fun t => pure (Node.breakLoop t)) :=
      (blind_advance heof).bind fun _ _ ht => .pure (congrArg Node.breakLoop ht)
    exact .ite Iff.rfl (hskip hbreak _) hbreak
  · have hcontinue : Blind SameNode (advance eof >>= fun t => pure (Node.continueLoop t))
        (advance eof' >>= fun t => pure (Node.continueLoop t)) :=
      (blind_advance heof).bind fun _ _ ht => .pure (congrArg Node.continueLoop ht)
    exact .ite (by rw [his]) (.ite Iff.rfl (hskip hcontinue _) hcontinue) (h.expression n)

theorem blind_statementList (close : Option String) :
    Blind SameNodes (statementList eof rules n close) (statementList eof' rules' n close) :=
  blind_skipNewlines.bind fun _ _ _ => blind_get.bind fun _ _ hfuel =>
    blind_statements heof (blind_statement heof h) close hfuel

theorem blind_block : Blind SameNode (block eof rules n) (block eof' rules' n) := by
  refine (blind_consume heof _ _).bind fun _ _ _ => ?_
  refine (blind_statementList heof h _).bind fun es es' hes => ?_
  refine (blind_consume heof _ _).bind fun _ _ _ => .pure ?_
  rw [SameNode, Node.erase_block, Node.erase_block, hes]

theorem blind_body : Blind SameNode (body eof rules n) (body eof' rules' n) := by
  refine (blind_sees heof _ _).test (blind_block heof h) ((blind_sees heof _ _).test ?_ blind_refuse)
  exact (blind_advance heof).bind fun _ _ _ => blind_statement heof h

/-! ## Expressions -/

theorem blind_binary (tighter : List (List String)) :
    Blind SameNode (binary eof rules n tighter) (binary eof' rules' n tighter) := by
  induction tighter with
  | nil => exact h.unary n
  | cons ops tighter ih =>
    exact ih.bind fun _ _ he => blind_get.bind fun _ _ hfuel => blind_chain heof ih ops hfuel he

theorem blind_ternary : Blind SameNode (ternary eof rules n) (ternary eof' rules' n) := by
  refine (blind_binary heof h levels).bind fun c c' hc => ?_
  refine (blind_sees heof _ _).test ?_ (.pure hc)
  refine (blind_advance heof).bind fun _ _ _ => (h.expression n).bind fun a a' ha => ?_
  refine (blind_consume heof _ _).bind fun _ _ _ => (h.expression n).bind fun b b' hb => .pure ?_
  rw [SameNode, Node.erase_ternary, Node.erase_ternary, hc, ha, hb]

omit heof in
theorem blind_bracketed : Blind SameNode (bracketed rules n) (bracketed rules' n) :=
  blind_skipNewlines.bind fun _ _ _ => (h.expression n).bind fun _ _ he =>
    blind_skipNewlines.bind fun _ _ _ => .pure he

theorem blind_expression :
    Blind SameNode (expression eof rules n) (expression eof' rules' n) := by
  intro ts ts' hts
  have hternary := blind_ternary (n := n) heof h _ _ hts
  unfold expression
  rw [StateT.run_bind, StateT.run_bind]
  change Agree SameNode (StateT.run _ ts) (StateT.run _ ts')
  cases ts with
  | nil =>
    obtain rfl := hts.of_nil
    exact hternary
  | cons t ts =>
    obtain ⟨t', ts', rfl, ht, hrest⟩ := hts.of_cons
    cases ts with
    | nil =>
      obtain rfl := hrest.of_nil
      exact hternary
    | cons u ts =>
      obtain ⟨u', ts', rfl, hu, hrest'⟩ := hrest.of_cons
      dsimp only
      rw [← Token.kind_eq_of_erase ht, ← Token.is_eq_of_erase hu, ← Token.is_eq_of_erase hu,
        ← assignsBehind_eq hrest]
      have hskip {y y' : Parser Node} (hy : Blind SameNode y y') :
          Agree SameNode ((set ts >>= fun _ => y).run (t :: u :: ts))
            ((set ts' >>= fun _ => y').run (t' :: u' :: ts')) := hy ts ts' hrest'
      split
      · refine hskip ((h.expression n).bind fun e e' he => .pure ?_)
        rw [SameNode, Node.erase_assign, Node.erase_assign, ht, he]
      · split
        · refine hskip ((blind_bracketed h).bind fun i i' hi => ?_)
          refine (blind_consume heof _ _).bind fun _ _ _ => ?_
          refine (blind_consume heof _ _).bind fun _ _ _ => ?_
          refine (h.expression n).bind fun e e' he => .pure ?_
          rw [SameNode, Node.erase_assignIndex, Node.erase_assignIndex, ht, hi, he]
        · exact hternary

theorem blind_moreArguments {fuel fuel' : List Token} (hfuel : SameWords fuel fuel') :
    Blind SameNodes (moreArguments eof rules n fuel) (moreArguments eof' rules' n fuel') := by
  induction fuel generalizing fuel' with
  | nil =>
    obtain rfl := hfuel.of_nil
    exact .pure rfl
  | cons _ fuel ih =>
    obtain ⟨_, fuel', rfl, -, hfuel⟩ := hfuel.of_cons
    refine (blind_sees heof _ _).test ?_ (.pure rfl)
    refine (blind_advance heof).bind fun _ _ _ => (blind_bracketed h).bind fun e e' he => ?_
    refine (ih hfuel).bind fun es es' hes => .pure ?_
    rw [SameNodes, List.map_cons, List.map_cons, he, hes]

theorem blind_arguments (close : String) :
    Blind SameNodes (arguments eof rules n close) (arguments eof' rules' n close) := by
  refine blind_skipNewlines.bind fun _ _ _ => (blind_sees heof _ _).test (.pure rfl) ?_
  refine (blind_bracketed h).bind fun e e' he => blind_get.bind fun fuel fuel' hfuel => ?_
  refine (blind_moreArguments heof h hfuel).bind fun es es' hes => .pure ?_
  rw [SameNodes, List.map_cons, List.map_cons, he, hes]

theorem blind_postfixes {fuel fuel' : List Token} (hfuel : SameWords fuel fuel') {e e' : Node}
    (he : SameNode e e') :
    Blind SameNode (postfixes eof rules n fuel e) (postfixes eof' rules' n fuel' e') := by
  induction fuel generalizing fuel' e e' with
  | nil =>
    obtain rfl := hfuel.of_nil
    exact .pure he
  | cons _ fuel ih =>
    obtain ⟨_, fuel', rfl, -, hfuel⟩ := hfuel.of_cons
    refine (blind_sees heof _ _).test ?_ ((blind_sees heof _ _).test ?_ (.pure he))
    · refine (blind_advance heof).bind fun _ _ _ => (blind_arguments heof h _).bind fun es es' hes => ?_
      refine (blind_consume heof _ _).bind fun _ _ _ => ih hfuel ?_
      rw [SameNode, Node.erase_call, Node.erase_call, he, hes]
    · refine (blind_advance heof).bind fun _ _ _ => (blind_bracketed h).bind fun i i' hi => ?_
      refine (blind_sees heof _ _).bind fun b b' hb => ?_
      subst hb
      refine .ite Iff.rfl ?_ ?_
      · refine (blind_advance heof).bind fun _ _ _ => (blind_bracketed h).bind fun j j' hj => ?_
        refine (blind_consume heof _ _).bind fun _ _ _ => ih hfuel ?_
        rw [SameNode, Node.erase_index, Node.erase_index, he, hi, Option.map_some, Option.map_some, hj]
      · refine (blind_consume heof _ _).bind fun _ _ _ => ih hfuel ?_
        rw [SameNode, Node.erase_index, Node.erase_index, he, hi, Option.map_none]

/-! ## Phrases that stand for themselves -/

/-- The same cases but for their places. -/
abbrev SameCases (r r' : List (Node × Node) × Option Node) : Prop :=
  r.1.map (Prod.map Node.erase Node.erase) = r'.1.map (Prod.map Node.erase Node.erase) ∧
    r.2.map Node.erase = r'.2.map Node.erase

theorem blind_moreCases {fuel fuel' : List Token} (hfuel : SameWords fuel fuel') :
    Blind SameCases (moreCases eof rules n fuel) (moreCases eof' rules' n fuel') := by
  induction fuel generalizing fuel' with
  | nil =>
    obtain rfl := hfuel.of_nil
    exact .pure ⟨rfl, rfl⟩
  | cons _ fuel ih =>
    obtain ⟨_, fuel', rfl, -, hfuel⟩ := hfuel.of_cons
    refine blind_get.bind fun ts ts' hts => ?_
    have his := Token.is_eq_of_erase (hts.dropWhile.headD heof) .keyword
    refine .ite (by rw [his]) ?_ (.ite (by rw [his]) ?_ (.pure ⟨rfl, rfl⟩))
    · refine blind_skipNewlines.bind fun _ _ _ => (blind_advance heof).bind fun _ _ _ => ?_
      refine (h.expression n).bind fun c c' hc => (blind_body heof h).bind fun b b' hb => ?_
      refine (ih hfuel).bind fun r r' hr => .pure ⟨?_, hr.2⟩
      rw [List.map_cons, List.map_cons, hr.1, Prod.map_apply, Prod.map_apply, hc, hb]
    · refine blind_skipNewlines.bind fun _ _ _ => (blind_advance heof).bind fun _ _ _ => ?_
      refine (blind_body heof h).bind fun b b' hb => .pure ⟨rfl, ?_⟩
      rw [Option.map_some, Option.map_some, hb]

theorem blind_conditional :
    Blind SameNode (conditional eof rules n) (conditional eof' rules' n) := by
  refine (blind_consume heof _ _).bind fun _ _ _ => (h.expression n).bind fun c c' hc => ?_
  refine (blind_body heof h).bind fun b b' hb => blind_get.bind fun fuel fuel' hfuel => ?_
  refine (blind_moreCases heof h hfuel).bind fun r r' hr => .pure ?_
  rw [SameNode, Node.erase_conditional, Node.erase_conditional, List.map_cons, List.map_cons,
    hr.1, hr.2, Prod.map_apply, Prod.map_apply, hc, hb]

theorem blind_forLoop : Blind SameNode (forLoop eof rules n) (forLoop eof' rules' n) := by
  refine (blind_consume heof _ _).bind fun _ _ _ => ?_
  refine (blind_consumeIdentifier heof _).bind fun t t' ht => ?_
  refine (blind_consume heof _ _).bind fun _ _ _ => (h.expression n).bind fun a a' ha => ?_
  refine (blind_sees heof _ _).bind fun x x' hx => (blind_sees heof _ _).bind fun y y' hy => ?_
  subst hx hy
  refine .ite Iff.rfl ((blind_advance heof).bind fun _ _ _ => ?_)
    (blind_refuse.bind fun _ _ (_ : True) => ?_)
  all_goals
    refine (h.expression n).bind fun b b' hb => (blind_sees heof _ _).bind fun x x' hx => ?_
    subst hx
    refine .ite Iff.rfl ?_ ((blind_body heof h).bind fun e e' he => .pure ?_)
    · refine (blind_advance heof).bind fun _ _ _ => (h.expression n).bind fun s s' hs => ?_
      refine (blind_body heof h).bind fun e e' he => .pure ?_
      rw [SameNode, Node.erase_forLoop, Node.erase_forLoop, ht, ha, hb, he, Option.map_some,
        Option.map_some, hs]
    · rw [SameNode, Node.erase_forLoop, Node.erase_forLoop, ht, ha, hb, he, Option.map_none]

theorem blind_eachLoop : Blind SameNode (eachLoop eof rules n) (eachLoop eof' rules' n) := by
  refine (blind_consume heof _ _).bind fun _ _ _ => ?_
  refine (blind_consumeIdentifier heof _).bind fun t t' ht => ?_
  refine (blind_consume heof _ _).bind fun _ _ _ => (h.expression n).bind fun a a' ha => ?_
  refine (blind_body heof h).bind fun b b' hb => .pure ?_
  rw [SameNode, Node.erase_eachLoop, Node.erase_eachLoop, ht, ha, hb]

theorem blind_whileLoop : Blind SameNode (whileLoop eof rules n) (whileLoop eof' rules' n) := by
  refine (blind_consume heof _ _).bind fun _ _ _ => (h.expression n).bind fun a a' ha => ?_
  refine (blind_body heof h).bind fun b b' hb => .pure ?_
  rw [SameNode, Node.erase_whileLoop, Node.erase_whileLoop, ha, hb]

theorem blind_function : Blind SameNode (function eof rules) (function eof' rules') := by
  refine (blind_consume heof _ _).bind fun _ _ _ => (blind_seesKind heof _).bind fun x x' hx => ?_
  subst hx
  refine .ite Iff.rfl ((blind_advance heof).bind fun t t' ht => ?_) ?_
  all_goals
    refine (blind_parameters heof).bind fun ps ps' hps => (blind_sees heof _ _).test ?_ ?_
    all_goals have hparams : ps.map Token.erase = ps'.map Token.erase := hps
    · refine (blind_advance heof).bind fun _ _ _ => (h.expression _).bind fun e e' he => .pure ?_
      simp only [SameNode, Node.erase_function, Option.map_some, Option.map_none, *]
    · refine (blind_sees heof _ _).test ((blind_block heof h).bind fun e e' he => .pure ?_)
        blind_refuse
      simp only [SameNode, Node.erase_function, Option.map_some, Option.map_none, *]

theorem blind_primary : Blind SameNode (primary eof rules n) (primary eof' rules' n) := by
  have htoken {make : Token → Node} (hmake : ∀ t, (make t).erase = make t.erase) :
      Blind SameNode (advance eof >>= fun t => pure (make t))
        (advance eof' >>= fun t => pure (make t)) := by
    refine (blind_advance heof).bind fun t t' ht => .pure ?_
    rw [SameNode, hmake, hmake, ht]
  refine (blind_peek heof).bind fun t t' ht => ?_
  have hkind (k : TokenKind) : t.kind == k ↔ t'.kind == k := by rw [Token.kind_eq_of_erase ht]
  have his (k : TokenKind) (s : String) : t.is k s ↔ t'.is k s := by rw [Token.is_eq_of_erase ht]
  refine .ite (hkind _) (htoken Node.erase_number) (.ite (hkind _) (htoken Node.erase_text) ?_)
  refine .ite (hkind _) (htoken Node.erase_lookup) (.ite (his _ _) (htoken Node.erase_null) ?_)
  refine .ite (his _ _) (blind_conditional heof h) (.ite (his _ _) (blind_forLoop heof h) ?_)
  refine .ite (his _ _) (blind_eachLoop heof h) (.ite (his _ _) (blind_whileLoop heof h) ?_)
  refine .ite (his _ _) (blind_function heof h) (.ite (his _ _) ?_ (.ite (his _ _) ?_ ?_))
  · refine (blind_advance heof).bind fun _ _ _ => (blind_bracketed h).bind fun e e' he => ?_
    exact (blind_consume heof _ _).bind fun _ _ _ => .pure he
  · refine (blind_advance heof).bind fun _ _ _ => (blind_arguments heof h _).bind fun es es' hes => ?_
    refine (blind_consume heof _ _).bind fun _ _ _ => .pure ?_
    rw [SameNode, Node.erase_list, Node.erase_list, hes]
  · refine .ite (hkind _) blind_refuse ?_
    rw [((Token.erase_eq_erase_iff t t').mp ht).2]
    exact blind_refuse

theorem blind_unary : Blind SameNode (unary eof rules n) (unary eof' rules' n) := by
  refine (blind_peek heof).bind fun t t' ht => .ite ?_ ?_ ?_
  · rw [isOperatorOf_eq ht]
  · refine (blind_advance heof).bind fun op op' hop => (h.unary n).bind fun e e' he => .pure ?_
    rw [SameNode, Node.erase_unary, Node.erase_unary, hop, he]
  · exact (blind_primary heof h).bind fun _ _ he => blind_get.bind fun _ _ hfuel =>
      blind_postfixes heof h hfuel he

theorem blind_program : Blind SameNode (program eof rules) (program eof' rules') := by
  refine (blind_peek heof).bind fun _ _ _ => (blind_statementList heof h _).bind fun es es' hes => ?_
  refine .pure ?_
  rw [SameNode, Node.erase_block, Node.erase_block, hes]

end

theorem blind_upTo (heof : eof.erase = eof'.erase) (depth : Nat) :
    (Rules.upTo eof depth).Blind (Rules.upTo eof' depth) := by
  induction depth with
  | zero => exact ⟨fun _ => .giveUp, fun _ => .giveUp⟩
  | succ depth ih => exact ⟨fun _ => blind_expression heof ih, fun _ => blind_unary heof ih⟩

end Parser

namespace Node

/-- The same program but for its places, or refusals of one wording. -/
inductive Agree : Except Diagnostic Node → Except Diagnostic Node → Prop where
  | ok {e e'} : e.erase = e'.erase → Agree (.ok e) (.ok e')
  | error {d d'} : d.complaint = d'.complaint → Agree (.error d) (.error d')

/-- Whether tokens make a program does not depend on their places. -/
theorem agree_ofTokens {s s' : TokenStream} (h : SameWords s.tokens s'.tokens)
    (heof : s.eof.erase = s'.eof.erase) (depth : Nat) :
    Agree (ofTokens depth s) (ofTokens depth s') := by
  have hr := Parser.blind_program heof (Parser.blind_upTo heof depth) _ _ h
  unfold ofTokens
  generalize StateT.run _ s.tokens = r at hr ⊢
  generalize StateT.run _ s'.tokens = r' at hr ⊢
  cases hr with
  | ok he => exact .ok he
  | refused => exact .error rfl
  | tooDeep => exact .error rfl

end Node

end Lumen
