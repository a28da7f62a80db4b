import Lumen.Proofs.Parser.Loops
import Lumen.Proofs.Parser.Nesting

/-!
# The parser comes to an end

All recursion of the rules goes through expressions and unary expressions, so how deep the parser
nests is told by how often those two are opened inside each other. From one expression to the next
inside it the parser takes a token, and from an expression to the unary one that it starts with it
takes none. So twice the number of tokens, and two more, is all the nesting that a text can need.
-/

namespace Lumen

def Complaint.IsSyntax (c : Complaint) : Prop := c.heading = .invalidSyntax ∧ c ≠ .nestingExceeded

namespace Parser

variable {α β : Type} {eof : Token} {rules : Rules} {n : Nesting} {ts : List Token} {c d k : Nat}

/-- An end of the parser: it has taken at least `c` of the tokens, or refuses them for their syntax.
That they are nested too deep is no such end. -/
def Settled (c : Nat) (ts : List Token) : Except Failure (α × List Token) → Prop
  | .ok (_, rest) => rest.length + c ≤ ts.length
  | .error (.refused d) => d.complaint.IsSyntax
  | .error (.tooDeep _) => False

def Settles (c k : Nat) (x : Parser α) : Prop := ∀ ts, ts.length < k → Settled c ts (x.run ts)

/-- Tokens that were taken before count. -/
theorem Settled.behind {rest : List Token} {r : Except Failure (α × List Token)}
    (h : Settled c rest r) (hrest : rest.length + d ≤ ts.length) : Settled (c + d) ts r := by
  cases r with
  | ok r =>
    have hr : r.2.length + c ≤ rest.length := h
    change r.2.length + (c + d) ≤ ts.length
    omega
  | error e => cases e <;> exact h

theorem Settled.bind {x : Parser α} {f : α → Parser β} (hx : Settled c ts (x.run ts))
    (hf : ∀ a rest, x.run ts = .ok (a, rest) → rest.length + c ≤ ts.length →
      Settled d rest ((f a).run rest)) :
    Settled (c + d) ts ((x >>= f).run ts) := by
  rw [StateT.run_bind]
  cases hr : x.run ts with
  | ok r =>
    obtain ⟨a, rest⟩ := r
    rw [hr] at hx
    have hrest : rest.length + c ≤ ts.length := hx
    rw [Nat.add_comm]
    exact (hf a rest hr hrest).behind hrest
  | error e =>
    rw [hr] at hx
    cases e <;> exact hx

namespace Settles

variable {x y : Parser α}

theorem weaken {c' k' : Nat} (h : Settles c k x) (hc : c' ≤ c) (hk : k' ≤ k) : Settles c' k' x := by
  intro ts hts
  have h := h ts (Nat.lt_of_lt_of_le hts hk)
  cases hr : x.run ts with
  | ok r =>
    rw [hr] at h
    exact Nat.le_trans (Nat.add_le_add_left hc _) h
  | error e =>
    rw [hr] at h
    cases e <;> exact h

/-- There are never fewer than no tokens. -/
theorem zero : Settles c 0 x := fun _ h => (Nat.not_lt_zero _ h).elim

theorem pure {a : α} : Settles 0 k (Pure.pure a : Parser α) := fun _ _ => Nat.le_refl _

theorem bind {f : α → Parser β} (hx : Settles c k x) (hf : ∀ a, Settles d (k - c) (f a)) :
    Settles (c + d) k (x >>= f) :=
  fun ts hts => Settled.bind (hx ts hts) fun a rest _ hrest => hf a rest (by omega)

/-- What goes on may count on as many tokens as there were. -/
theorem next {f : α → Parser β} (hx : Settles c k x) (hf : ∀ a, Settles d k (f a)) :
    Settles d k (x >>= f) := by
  have h := (hx.weaken (Nat.zero_le c) (Nat.le_refl k)).bind hf
  rwa [Nat.zero_add] at h

/-- What goes on may count on one token less. -/
theorem first {f : α → Parser β} (hx : Settles 1 (k + 1) x) (hf : ∀ a, Settles 0 k (f a)) :
    Settles 1 (k + 1) (x >>= f) := hx.bind hf

/-- What is left to do only makes the result. -/
theorem last {f : α → β} (hx : Settles c k x) : Settles c k (x >>= fun a => Pure.pure (f a)) :=
  hx.bind fun _ => pure

theorem ite {p : Prop} [Decidable p] (hx : Settles c k x) (hy : Settles c k y) :
    Settles c k (if p then x else y) := by
  split
  · exact hx
  · exact hy

end Settles

/-! ## Single tokens -/

theorem settles_get : Settles 0 k get := fun _ _ => Nat.le_refl _

theorem settles_peek : Settles 0 k (peek eof) := fun _ _ => Nat.le_refl _

theorem settles_sees {kind : TokenKind} {s : String} : Settles 0 k (sees eof kind s) :=
  fun _ _ => Nat.le_refl _

theorem settles_seesKind {kind : TokenKind} : Settles 0 k (seesKind eof kind) :=
  fun _ _ => Nat.le_refl _

theorem settles_endsReturn : Settles 0 k (endsReturn eof) := fun _ _ => Nat.le_refl _

theorem settles_advance : Settles 0 k (advance eof) := by
  intro ts _
  cases ts with
  | nil => exact Nat.le_refl 0
  | cons t ts => exact Nat.le_succ ts.length

theorem settles_refuse {complaint : Complaint} (h : complaint.IsSyntax) :
    Settles c k (refuse eof complaint : Parser α) := fun _ _ => h

/-- Nothing goes on behind a refusal. -/
theorem settles_refuse_bind {complaint : Complaint} {f : β → Parser α} (h : complaint.IsSyntax) :
    Settles c k (refuse eof complaint >>= f) := fun _ _ => h

theorem settles_expected {what : String} : Settles c k (refuse eof (.expected what) : Parser α) :=
  settles_refuse ⟨rfl, nofun⟩

theorem settles_skipNewlines : Settles 0 k skipNewlines :=
  fun _ _ => (List.dropWhile_suffix _).length_le

/-- What looks at the next token is decided by it. -/
theorem settled_peek {f : Token → Parser α} (h : Settled c ts ((f (ts.headD eof)).run ts)) :
    Settled c ts ((peek eof >>= f).run ts) := h

theorem settled_ite {p : Prop} [Decidable p] {x y : Parser α} (hx : p → Settled c ts (x.run ts))
    (hy : Settled c ts (y.run ts)) : Settled c ts ((if p then x else y).run ts) := by
  split
  · next hp => exact hx hp
  · exact hy

/-- A token that is not the end of the text is taken. -/
theorem settled_advance (heof : eof.kind = .eof) (hne : (ts.headD eof).kind ≠ .eof) :
    Settled 1 ts ((advance eof).run ts) := by
  cases ts with
  | nil => exact (hne heof).elim
  | cons t ts => exact Nat.le_refl _

theorem settles_consume {kind : TokenKind} {s : String} (heof : eof.kind = .eof)
    (hkind : kind ≠ .eof) : Settles 1 k (consume eof kind s) := by
  intro ts _
  change Settled 1 ts ((if (ts.headD eof).is kind s then advance eof
    else refuse eof (.expected ("'" ++ s ++ "'"))).run ts)
  split
  · next h => exact settled_advance heof fun hend => hkind ((Token.kind_of_is h).symm.trans hend)
  · exact ⟨rfl, nofun⟩

theorem settles_consumeIdentifier {what : String} (heof : eof.kind = .eof) :
    Settles 1 k (consumeIdentifier eof what) := by
  intro ts _
  change Settled 1 ts ((if (ts.headD eof).kind == .identifier then advance eof
    else refuse eof (.expected what)).run ts)
  split
  · next h =>
    refine settled_advance heof fun hend => ?_
    rw [hend] at h
    cases h
  · exact ⟨rfl, nofun⟩

/-! ## Rules that repeat -/

/-- Whether the next token ends the statements. -/
theorem settles_closed (close : Option String) :
    Settles 0 k (match close with
      | some s => sees eof .paren s
      | none => seesKind eof .eof) := by
  cases close with
  | some s => exact settles_sees
  | none => exact settles_seesKind

theorem settles_statements {statement : Parser Node} (h : Settles 0 k statement)
    (close : Option String) (fuel : List Token) :
    Settles 0 k (statements eof statement close fuel) := by
  induction fuel with
  | nil => exact .pure
  | cons _ fuel ih =>
    refine (settles_closed close).next fun _ => settles_seesKind.next fun _ => ?_
    refine .ite .pure (h.next fun first => settles_seesKind.next fun _ => ?_)
    refine (settles_closed close).next fun _ => .ite ?_ (settles_refuse_bind ⟨rfl, nofun⟩)
    exact settles_skipNewlines.next fun _ => ih.last

theorem settles_chain {operand : Parser Node} (h : Settles 0 k operand) (ops : List String)
    (fuel : List Token) (left : Node) : Settles 0 k (chain eof operand ops fuel left) := by
  induction fuel generalizing left with
  | nil => exact .pure
  | cons _ fuel ih =>
    refine settles_peek.next fun t => .ite ?_ .pure
    exact settles_advance.next fun op => h.next fun right => ih _

theorem settles_moreParameters (heof : eof.kind = .eof) (fuel : List Token) :
    Settles 0 k (moreParameters eof fuel) := by
  induction fuel with
  | nil => exact .pure
  | cons _ fuel ih =>
    refine settles_sees.next fun _ => .ite (settles_advance.next fun _ => ?_) .pure
    refine settles_skipNewlines.next fun _ => (settles_consumeIdentifier heof).next fun t => ?_
    exact settles_skipNewlines.next fun _ => ih.last

theorem settles_parameters (heof : eof.kind = .eof) : Settles 0 k (parameters eof) := by
  have hclose (params : List Token) : Settles 0 k (do
      let _ ← consume eof .paren ")"
      return params) :=
    (settles_consume heof (by decide)).last.weaken (Nat.zero_le _) (Nat.le_refl _)
  refine (settles_consume heof (by decide)).next fun _ => settles_skipNewlines.next fun _ => ?_
  refine settles_sees.next fun _ => .ite ?_ (hclose _)
  refine (settles_consumeIdentifier heof).next fun first => settles_skipNewlines.next fun _ => ?_
  exact settles_get.next fun fuel => (settles_moreParameters heof fuel).next fun params => hclose _

/-! ## Rules behind the first token of a phrase -/

section

variable (h : ∀ n, Settles 1 k (rules.expression n))
include h

theorem settles_bracketed : Settles 0 k (bracketed rules n) :=
  settles_skipNewlines.next fun _ => (h n).next fun _ => settles_skipNewlines.last

theorem settles_statement : Settles 0 k (statement eof rules n) := by
  refine settles_peek.next fun t => .ite (.ite (settles_refuse_bind ⟨rfl, nofun⟩) ?_) (.ite ?_ ?_)
  · refine settles_advance.next fun _ => settles_endsReturn.next fun _ => .ite .pure ?_
    exact (h n).next fun _ => .pure
  · exact .ite (settles_refuse_bind ⟨rfl, nofun⟩) settles_advance.last
  · refine .ite (.ite (settles_refuse_bind ⟨rfl, nofun⟩) settles_advance.last) ?_
    exact (h n).weaken (Nat.zero_le _) (Nat.le_refl _)

theorem settles_statementList (close : Option String) :
    Settles 0 k (statementList eof rules n close) :=
  settles_skipNewlines.next fun _ => settles_get.next fun fuel =>
    settles_statements (settles_statement h) close fuel

theorem settles_moreArguments (fuel : List Token) :
    Settles 0 k (moreArguments eof rules n fuel) := by
  induction fuel with
  | nil => exact .pure
  | cons _ fuel ih =>
    refine settles_sees.next fun _ => .ite (settles_advance.next fun _ => ?_) .pure
    exact (settles_bracketed h).next fun e => ih.last

theorem settles_arguments (close : String) : Settles 0 k (arguments eof rules n close) := by
  refine settles_skipNewlines.next fun _ => settles_sees.next fun _ => .ite .pure ?_
  refine (settles_bracketed h).next fun first => settles_get.next fun fuel => ?_
  exact (settles_moreArguments h fuel).last

variable (heof : eof.kind = .eof)
include heof

theorem settles_block : Settles 0 k (block eof rules n) := by
  refine (settles_consume heof (by decide)).next fun _ => ?_
  refine (settles_statementList h _).next fun _ => ?_
  exact (settles_consume heof (by decide)).next fun _ => .pure

theorem settles_body : Settles 0 k (body eof rules n) := by
  refine settles_sees.next fun _ => .ite (settles_block h heof) (settles_sees.next fun _ => ?_)
  exact .ite (settles_advance.next fun _ => settles_statement h) settles_expected

theorem settles_postfixes (fuel : List Token) (node : Node) :
    Settles 0 k (postfixes eof rules n fuel node) := by
  induction fuel generalizing node with
  | nil => exact .pure
  | cons _ fuel ih =>
    refine settles_sees.next fun _ => .ite ?_ (settles_sees.next fun _ => .ite ?_ .pure)
    · refine settles_advance.next fun _ => (settles_arguments h ")").next fun args => ?_
      exact (settles_consume heof (by decide)).next fun closing => ih _
    · refine settles_advance.next fun _ => (settles_bracketed h).next fun index => ?_
      refine settles_sees.next fun _ => .ite (settles_advance.next fun _ => ?_) ?_
      · refine (settles_bracketed h).next fun upTo => ?_
        exact (settles_consume heof (by decide)).next fun closing => ih _
      · exact (settles_consume heof (by decide)).next fun closing => ih _

theorem settles_moreCases (fuel : List Token) : Settles 0 k (moreCases eof rules n fuel) := by
  induction fuel with
  | nil => exact .pure
  | cons _ fuel ih =>
    refine settles_get.next fun _ => .ite ?_ (.ite ?_ .pure)
    · refine settles_skipNewlines.next fun _ => settles_advance.next fun _ => ?_
      refine (h n).next fun condition => (settles_body h heof).next fun guarded => ?_
      exact ih.last
    · refine settles_skipNewlines.next fun _ => settles_advance.next fun _ => ?_
      exact (settles_body h heof).last

theorem settles_conditional : Settles 1 (k + 1) (conditional eof rules n) := by
  refine (settles_consume heof (by decide)).first fun word => (h n).next fun condition => ?_
  refine (settles_body h heof).next fun guarded => settles_get.next fun fuel => ?_
  exact (settles_moreCases h heof fuel).last

theorem settles_forLoop : Settles 1 (k + 1) (forLoop eof rules n) := by
  refine (settles_consume heof (by decide)).first fun word => ?_
  refine (settles_consumeIdentifier heof).next fun name => ?_
  refine (settles_consume heof (by decide)).next fun _ => (h n).next fun first => ?_
  refine settles_sees.next fun _ => settles_sees.next fun _ => ?_
  refine .ite (settles_advance.next fun _ => ?_) (settles_refuse_bind ⟨rfl, nofun⟩)
  refine (h n).next fun last => settles_sees.next fun _ => .ite ?_ (settles_body h heof).last
  exact settles_advance.next fun _ => (h n).next fun step => (settles_body h heof).last

theorem settles_eachLoop : Settles 1 (k + 1) (eachLoop eof rules n) := by
  refine (settles_consume heof (by decide)).first fun word => ?_
  refine (settles_consumeIdentifier heof).next fun name => ?_
  refine (settles_consume heof (by decide)).next fun _ => (h n).next fun iterable => ?_
  exact (settles_body h heof).last

theorem settles_whileLoop : Settles 1 (k + 1) (whileLoop eof rules n) := by
  refine (settles_consume heof (by decide)).first fun word => (h n).next fun condition => ?_
  exact (settles_body h heof).last

theorem settles_function : Settles 1 (k + 1) (function eof rules) := by
  refine (settles_consume heof (by decide)).first fun word => settles_seesKind.next fun named => ?_
  refine .ite (settles_advance.next fun name => ?_) ?_
  all_goals
    refine (settles_parameters heof).next fun params => settles_sees.next fun _ => .ite ?_ ?_
    · exact settles_advance.next fun _ => (h .functionBody).next fun _ => .pure
    · exact settles_sees.next fun _ => .ite (settles_block h heof).last settles_expected

theorem settles_primary : Settles 1 (k + 1) (primary eof rules n) := by
  intro ts hts
  refine settled_peek ?_
  have htaken {f : Token → Parser Node} (hne : (ts.headD eof).kind ≠ .eof)
      (hf : ∀ t, Settles 0 k (f t)) : Settled 1 ts ((advance eof >>= f).run ts) :=
    (settled_advance heof hne).bind fun t rest _ hrest => hf t rest (by omega)
  have hkind {kind : TokenKind} (hne : kind ≠ .eof) (hkind : (ts.headD eof).kind == kind) :
      (ts.headD eof).kind ≠ .eof := eq_of_beq hkind ▸ hne
  have hword {kind : TokenKind} {s : String} (hne : kind ≠ .eof)
      (hword : (ts.headD eof).is kind s) : (ts.headD eof).kind ≠ .eof :=
    Token.kind_of_is hword ▸ hne
  refine settled_ite (fun hnumber => htaken (hkind (by decide) hnumber) fun _ => .pure) ?_
  refine settled_ite (fun htext => htaken (hkind (by decide) htext) fun _ => .pure) ?_
  refine settled_ite (fun hname => htaken (hkind (by decide) hname) fun _ => .pure) ?_
  refine settled_ite (fun hnull => htaken (hword (by decide) hnull) fun _ => .pure) ?_
  refine settled_ite (fun _ => settles_conditional h heof ts hts) ?_
  refine settled_ite (fun _ => settles_forLoop h heof ts hts) ?_
  refine settled_ite (fun _ => settles_eachLoop h heof ts hts) ?_
  refine settled_ite (fun _ => settles_whileLoop h heof ts hts) ?_
  refine settled_ite (fun _ => settles_function h heof ts hts) ?_
  refine settled_ite (fun hround => htaken (hword (by decide) hround) fun _ => ?_) ?_
  · refine (settles_bracketed h).next fun e => ?_
    exact (settles_consume heof (by decide)).next fun _ => .pure
  refine settled_ite (fun hsquare => htaken (hword (by decide) hsquare) fun _ => ?_) ?_
  · refine (settles_arguments h "]").next fun elements => ?_
    exact (settles_consume heof (by decide)).next fun _ => .pure
  exact settled_ite (fun _ => ⟨rfl, nofun⟩) ⟨rfl, nofun⟩

/-- A unary expression takes a token before it opens another phrase. -/
theorem settles_unary (hunary : ∀ n, Settles 1 k (rules.unary n)) :
    Settles 1 (k + 1) (Parser.unary eof rules n) := by
  intro ts hts
  refine settled_peek (settled_ite (fun hsign => ?_) ?_)
  · have hkind := Grammar.kind_of_isSign hsign
    have hne : (ts.headD eof).kind ≠ .eof := fun hend => nomatch hkind.symm.trans hend
    refine (settled_advance heof hne).bind (d := 0) fun op rest _ hrest => ?_
    exact (hunary n).next (fun _ => .pure) rest (by omega)
  · have hsuffixed : Settles 1 (k + 1) (do
        let node ← primary eof rules n
        postfixes eof rules n (← get) node) :=
      (settles_primary h heof).first fun node => settles_get.next fun fuel =>
        settles_postfixes h heof fuel node
    exact hsuffixed ts hts

end

/-! ## Expressions -/

/-- The levels start with a unary expression. -/
theorem settles_binary (hunary : ∀ n, Settles 1 k (rules.unary n)) (tighter : List (List String)) :
    Settles 1 k (binary eof rules n tighter) := by
  induction tighter with
  | nil => exact hunary n
  | cons ops tighter ih =>
    refine ih.bind (d := 0) fun first => settles_get.next fun fuel => ?_
    exact settles_chain (ih.weaken (Nat.zero_le _) (Nat.sub_le k 1)) ops fuel first

section

variable (heof : eof.kind = .eof) (h : ∀ n, Settles 1 k (rules.expression n))
  (hunary : ∀ n, Settles 1 (k + 1) (rules.unary n))
include heof h hunary

theorem settles_ternary : Settles 1 (k + 1) (ternary eof rules n) := by
  refine (settles_binary hunary levels).first fun condition => settles_sees.next fun _ => ?_
  refine .ite (settles_advance.next fun _ => (h n).next fun left => ?_) .pure
  exact (settles_consume heof (by decide)).next fun _ => (h n).next fun _ => .pure

/-- Only a unary expression that starts it is opened before an expression takes a token. -/
theorem settles_expression : Settles 1 (k + 1) (Parser.expression eof rules n) := by
  intro ts hts
  have hexpression : Settled (0 + 1) ts ((Parser.expression eof rules n).run ts) := by
    refine (settles_get ts hts).bind ?_
    rintro _ _ ⟨⟩ -
    have hternary := settles_ternary heof h hunary (n := n) ts hts
    obtain _ | ⟨t, _ | ⟨u, rest⟩⟩ := ts
    · exact hternary
    · exact hternary
    · have hassigned {y : Parser Node} (hy : Settles 0 k y) : Settled 1 (t :: u :: rest)
          ((set rest >>= fun _ => y).run (t :: u :: rest)) := by
        have hrest : rest.length + 2 < k + 1 := hts
        have htaken : Settled (0 + 1) (t :: u :: rest) (y.run rest) :=
          (hy rest (by omega)).behind (Nat.le_succ (rest.length + 1))
        exact htaken
      refine settled_ite (fun _ => hassigned ((h n).next fun _ => .pure)) ?_
      refine settled_ite (fun _ => hassigned ((settles_bracketed h).next fun index => ?_)) hternary
      refine (settles_consume heof (by decide)).next fun _ => ?_
      exact (settles_consume heof (by decide)).next fun _ => (h n).next fun _ => .pure
  rwa [Nat.zero_add] at hexpression

end

/-! ## Whole programs -/

/-- Rules that may nest twice as deep as there are tokens, and twice more, never nest too deep. -/
theorem settles_upTo (heof : eof.kind = .eof) (depth : Nat) :
    (∀ k, 2 * k ≤ depth → ∀ n, Settles 1 k ((Rules.upTo eof depth).expression n)) ∧
      ∀ k, 2 * k ≤ depth + 1 → ∀ n, Settles 1 k ((Rules.upTo eof depth).unary n) := by
  induction depth with
  | zero =>
    refine ⟨fun k hk n => ?_, fun k hk n => ?_⟩
    all_goals
      obtain rfl : k = 0 := by omega
      exact .zero
  | succ depth ih =>
    obtain ⟨hexpression, hunary⟩ := ih
    refine ⟨fun k hk n => ?_, fun k hk n => ?_⟩
    · obtain _ | k := k
      · exact .zero
      · exact settles_expression heof (hexpression k (by omega)) (hunary (k + 1) (by omega))
    · obtain _ | k := k
      · exact .zero
      · exact settles_unary (hexpression k (by omega)) heof (hunary k (by omega))

theorem settles_program (heof : eof.kind = .eof) {depth : Nat} (hdepth : 2 * k ≤ depth) :
    Settles 0 k (program eof (Rules.upTo eof depth)) :=
  settles_peek.next fun _ =>
    (settles_statementList ((settles_upTo heof depth).1 k hdepth) none).last

/-- A parse has come to its end: to the block of a program, or to a complaint about the syntax. -/
def IsEnd : Except Diagnostic Node → Prop
  | .ok block => ∃ body start stop, block = .block body start stop
  | .error d => d.complaint.IsSyntax

/-- How the tokens of a text are parsed. All recursion of the rules goes through expressions and
unary expressions, so `depth` says how many of them may be open inside each other; a fixed number of
other rules lies between two of these. -/
structure Terminates (s : TokenStream) : Prop where
  /-- There is one end. The parser comes to it with as much nesting as the tokens may need, and
  with less it comes to it as well or reports the nesting. -/
  ends : ∃ r, IsEnd r ∧ (∀ depth, 2 * s.tokens.length + 2 ≤ depth → Node.ofTokens depth s = r) ∧
    ∀ depth, Node.ofTokens depth s = r ∨ Node.TooDeep (Node.ofTokens depth s)
  /-- An expression needs no more nesting than the tokens that it starts at tell, wherever it
  starts, and it does not come back without having taken one. -/
  expression : ∀ n ts depth, 2 * ts.length + 2 ≤ depth →
    Settled 1 ts (((Rules.upTo s.eof depth).expression n).run ts)
  unary : ∀ n ts depth, 2 * ts.length + 1 ≤ depth →
    Settled 1 ts (((Rules.upTo s.eof depth).unary n).run ts)
  /-- No loop is cut off by its fuel. -/
  loops : ∀ depth, (Rules.upTo s.eof depth).Sufficient s.eof
  /-- Expressions and the program stop at a token of the text or at its end, also where they are
  refused or nested too deep. -/
  cursor : ∀ depth, (Rules.upTo s.eof depth).Blames s.eof ∧
    Blames s.eof (program s.eof (Rules.upTo s.eof depth))
  /-- A program stops at the end of the text. -/
  all : ∀ depth block rest,
    (program s.eof (Rules.upTo s.eof depth)).run s.tokens = .ok (block, rest) → rest = []

theorem isEnd_of_settled {depth : Nat} {s : TokenStream} (heof : s.eof.kind = .eof)
    (htokens : ∀ t ∈ s.tokens, t.kind ≠ .eof)
    (h : Settled 0 s.tokens ((program s.eof (Rules.upTo s.eof depth)).run s.tokens)) :
    IsEnd (Node.ofTokens depth s) := by
  unfold Node.ofTokens
  cases hr : (program s.eof (Rules.upTo s.eof depth)).run s.tokens with
  | ok r =>
    obtain ⟨block, rest⟩ := r
    obtain ⟨_, _, _⟩ := ensures_program heof htokens _ _ hr
    exact ⟨_, _, _, rfl⟩
  | error e =>
    rw [hr] at h
    cases e with
    | refused d => exact h
    | tooDeep => exact h.elim

/-- The parser comes to an end on every token stream, with no more nesting than twice the number of
tokens, and two. -/
theorem terminates (s : TokenStream) (heof : s.eof.kind = .eof)
    (htokens : ∀ t ∈ s.tokens, t.kind ≠ .eof) : Terminates s := by
  have hsettled {depth : Nat} (hdepth : 2 * s.tokens.length + 2 ≤ depth) :
      IsEnd (Node.ofTokens depth s) :=
    isEnd_of_settled heof htokens (settles_program heof hdepth s.tokens (Nat.lt_succ_self _))
  have hdeep {r : Except Diagnostic Node} (h : IsEnd r) : ¬ Node.TooDeep r := by
    rintro ⟨span, rfl⟩
    exact h.2 rfl
  have hall {depth depth' : Nat} (hdepth : 2 * s.tokens.length + 2 ≤ depth) (hle : depth ≤ depth') :
      Node.ofTokens depth' s = Node.ofTokens depth s :=
    Node.ofTokens_of_le hle (hdeep (hsettled hdepth))
  refine ⟨⟨_, hsettled (Nat.le_refl _), fun depth => hall (Nat.le_refl _), fun depth => ?_⟩,
    fun n ts depth hdepth => ?_, fun n ts depth hdepth => ?_, fun depth => ?_, fun depth => ?_,
    fun depth block rest hr => ?_⟩
  · by_cases hnested : Node.TooDeep (Node.ofTokens depth s)
    · exact .inr hnested
    · refine .inl ?_
      rcases Nat.le_total (2 * s.tokens.length + 2) depth with hle | hle
      · exact hall (Nat.le_refl _) hle
      · exact (Node.ofTokens_of_le hle hnested).symm
  · exact (settles_upTo heof depth).1 _ hdepth n ts (Nat.lt_succ_self _)
  · exact (settles_upTo heof depth).2 _ (Nat.succ_le_succ hdepth) n ts (Nat.lt_succ_self _)
  · exact sufficient_upTo heof depth
  · exact ⟨blames_upTo s.eof depth, blames_program (blames_upTo s.eof depth)⟩
  · exact (ensures_wholeProgram heof htokens _ _ hr).1

/-- A name in brackets: four phrases are open inside each other at once, and three are too few. -/
theorem terminates_brackets :
    let p : Position := ⟨"f", 1, 1, 0⟩
    let word (kind : TokenKind) (s : String) : Token := ⟨kind, .text s, p, p⟩
    let s : TokenStream := ⟨[word .paren "(", word .identifier "a", word .paren ")"],
      ⟨.eof, .null, p, p⟩⟩
    s.eof.kind = .eof ∧ (∀ t ∈ s.tokens, t.kind ≠ .eof) ∧
      Node.ofTokens 4 s = .ok (.block [.lookup (word .identifier "a")] p p) ∧
      Node.TooDeep (Node.ofTokens 3 s) ∧ Terminates s := by
  intro p word s
  have htokens : ∀ t ∈ s.tokens, t.kind ≠ .eof := by decide
  refine ⟨rfl, htokens, ?_, ⟨(word .identifier "a").span, ?_⟩, terminates s rfl htokens⟩
  · cbv
  · cbv

end Parser

end Lumen
