import Lumen.Proofs.Node.Extent
import Lumen.Proofs.Token.Tiling

/-!
# Where a source is refused

The lexer refuses a source at the first character that starts no token. A parser takes tokens from
the front, and if it refuses, then at the first of those that are left; there is one lemma for each
rule, given the same of what parses nested phrases. So a source is refused at a stretch of its own
text, unless it is nested too deep.
-/

namespace Lumen

namespace Parser

variable {α β : Type} {eof : Token} {rules : Rules} {n : Nesting} {ts : List Token}

def Failure.span : Failure → Span
  | refused d => d.span
  | tooDeep s => s

/-- What is left of the tokens is an end of them, and what is refused is the first token of an
end. -/
def Ahead (eof : Token) (ts : List Token) : Except Failure (α × List Token) → Prop
  | .ok (_, rest) => rest <:+ ts
  | .error e => ∃ rest, rest <:+ ts ∧ e.span = (rest.headD eof).span

theorem Ahead.trans {rest : List Token} {r : Except Failure (α × List Token)}
    (h : Ahead eof rest r) (hrest : rest <:+ ts) : Ahead eof ts r := by
  cases r with
  | ok r => exact List.IsSuffix.trans h hrest
  | error e =>
    obtain ⟨left, hleft, he⟩ := h
    exact ⟨left, hleft.trans hrest, he⟩

/-- From any tokens the parser goes ahead, and refuses at the first of those that are left. -/
def Blames (eof : Token) (x : Parser α) : Prop := ∀ ts, Ahead eof ts (x.run ts)

theorem Ahead.bind {x : Parser α} {f : α → Parser β} (hx : Ahead eof ts (x.run ts))
    (hf : ∀ a rest, x.run ts = .ok (a, rest) → Ahead eof rest ((f a).run rest)) :
    Ahead eof ts ((x >>= f).run ts) := by
  rw [StateT.run_bind]
  cases hr : x.run ts with
  | ok r =>
    rw [hr] at hx
    exact (hf r.1 r.2 hr).trans hx
  | error e =>
    rw [hr] at hx
    exact hx

namespace Blames

variable {x y : Parser α}

theorem pure {a : α} : Blames eof (Pure.pure a : Parser α) := List.suffix_refl

theorem giveUp : Blames eof (Parser.giveUp eof : Parser α) :=
  fun ts => ⟨ts, List.suffix_refl ts, rfl⟩

theorem bind {f : α → Parser β} (hx : Blames eof x) (hf : ∀ a, Blames eof (f a)) :
    Blames eof (x >>= f) := fun ts => Ahead.bind (hx ts) fun a rest _ => hf a rest

theorem ite {c : Prop} [Decidable c] (hx : Blames eof x) (hy : Blames eof y) :
    Blames eof (if c then x else y) := by
  split
  · exact hx
  · exact hy

/-- What is left to do only makes the result. -/
theorem last {f : α → β} (hx : Blames eof x) : Blames eof (x >>= fun a => Pure.pure (f a)) :=
  hx.bind fun _ => pure

end Blames

/-! ## Single tokens -/

theorem blames_get : Blames eof get := List.suffix_refl

theorem blames_peek : Blames eof (peek eof) := List.suffix_refl

theorem blames_sees {kind : TokenKind} {s : String} : Blames eof (sees eof kind s) :=
  List.suffix_refl

theorem blames_seesKind {kind : TokenKind} : Blames eof (seesKind eof kind) := List.suffix_refl

theorem blames_endsReturn : Blames eof (endsReturn eof) := List.suffix_refl

theorem blames_advance : Blames eof (advance eof) := by
  intro ts
  cases ts with
  | nil => exact List.suffix_refl []
  | cons t ts => exact List.suffix_cons t ts

theorem blames_refuse {c : Complaint} : Blames eof (refuse eof c : Parser α) :=
  fun ts => ⟨ts, List.suffix_refl ts, rfl⟩

theorem blames_skipNewlines : Blames eof skipNewlines := fun _ => List.dropWhile_suffix _

theorem blames_consume {kind : TokenKind} {s : String} : Blames eof (consume eof kind s) :=
  blames_sees.bind fun _ => .ite blames_advance blames_refuse

theorem blames_consumeIdentifier {what : String} : Blames eof (consumeIdentifier eof what) :=
  blames_seesKind.bind fun _ => .ite blames_advance blames_refuse

/-! ## Rules that repeat -/

/-- Whether the next token ends the statements. -/
theorem blames_closed (close : Option String) :
    Blames eof (match close with
      | some s => sees eof .paren s
      | none => seesKind eof .eof) := by
  cases close with
  | some s => exact blames_sees
  | none => exact blames_seesKind

theorem blames_statements {statement : Parser Node} (h : Blames eof statement)
    (close : Option String) (fuel : List Token) :
    Blames eof (statements eof statement close fuel) := by
  induction fuel with
  | nil => exact .pure
  | cons _ fuel ih =>
    refine (blames_closed close).bind fun _ => blames_seesKind.bind fun _ => ?_
    refine .ite .pure (h.bind fun first => blames_seesKind.bind fun _ => ?_)
    refine (blames_closed close).bind fun _ => .ite ?_ (blames_refuse.bind fun _ => ?_)
    all_goals exact blames_skipNewlines.bind fun _ => ih.last

theorem blames_chain {operand : Parser Node} (h : Blames eof operand) (ops : List String)
    (fuel : List Token) (left : Node) : Blames eof (chain eof operand ops fuel left) := by
  induction fuel generalizing left with
  | nil => exact .pure
  | cons _ fuel ih =>
    refine blames_peek.bind fun t => .ite ?_ .pure
    exact blames_advance.bind fun op => h.bind fun right => ih _

theorem blames_moreParameters (fuel : List Token) : Blames eof (moreParameters eof fuel) := by
  induction fuel with
  | nil => exact .pure
  | cons _ fuel ih =>
    refine blames_sees.bind fun _ => .ite (blames_advance.bind fun _ => ?_) .pure
    refine blames_skipNewlines.bind fun _ => blames_consumeIdentifier.bind fun t => ?_
    exact blames_skipNewlines.bind fun _ => ih.last

theorem blames_parameters : Blames eof (parameters eof) := by
  refine blames_consume.bind fun _ => blames_skipNewlines.bind fun _ => blames_sees.bind fun _ => ?_
  refine .ite (blames_consumeIdentifier.bind fun first => blames_skipNewlines.bind fun _ => ?_) ?_
  · refine blames_get.bind fun fuel => (blames_moreParameters fuel).bind fun params => ?_
    exact blames_consume.last
  · exact blames_consume.last

/-- The nested phrases are refused at the first token that they leave. -/
structure Rules.Blames (eof : Token) (rules : Rules) : Prop where
  expression : ∀ n, Parser.Blames eof (rules.expression n)
  unary : ∀ n, Parser.Blames eof (rules.unary n)

section

variable (h : rules.Blames eof)
include h

/-! ## Statements -/

theorem blames_statement : Blames eof (statement eof rules n) := by
  refine blames_peek.bind fun t => .ite (.ite (blames_refuse.bind fun _ => ?_) ?_) (.ite ?_ ?_)
  · refine blames_advance.bind fun _ => blames_endsReturn.bind fun _ => .ite .pure ?_
    exact (h.expression n).last
  · refine blames_advance.bind fun _ => blames_endsReturn.bind fun _ => .ite .pure ?_
    exact (h.expression n).last
  · exact .ite (blames_refuse.bind fun _ => blames_advance.last) blames_advance.last
  · refine .ite (.ite (blames_refuse.bind fun _ => ?_) ?_) (h.expression n)
    · exact blames_advance.last
    · exact blames_advance.last

theorem blames_statementList (close : Option String) :
    Blames eof (statementList eof rules n close) :=
  blames_skipNewlines.bind fun _ => blames_get.bind fun fuel =>
    blames_statements (blames_statement h) close fuel

theorem blames_block : Blames eof (block eof rules n) :=
  blames_consume.bind fun _ => (blames_statementList h _).bind fun _ => blames_consume.last

theorem blames_body : Blames eof (body eof rules n) := by
  refine blames_sees.bind fun _ => .ite (blames_block h) (blames_sees.bind fun _ => ?_)
  exact .ite (blames_advance.bind fun _ => blames_statement h) blames_refuse

/-! ## Expressions -/

theorem blames_binary (tighter : List (List String)) :
    Blames eof (binary eof rules n tighter) := by
  induction tighter with
  | nil => exact h.unary n
  | cons ops tighter ih =>
    exact ih.bind fun first => blames_get.bind fun fuel => blames_chain ih ops fuel first

theorem blames_ternary : Blames eof (ternary eof rules n) := by
  refine (blames_binary h levels).bind fun condition => blames_sees.bind fun _ => .ite ?_ .pure
  refine blames_advance.bind fun _ => (h.expression n).bind fun left => ?_
  exact blames_consume.bind fun _ => (h.expression n).last

theorem blames_bracketed : Blames eof (bracketed rules n) :=
  blames_skipNewlines.bind fun _ => (h.expression n).bind fun _ => blames_skipNewlines.last

theorem blames_expression : Blames eof (expression eof rules n) := by
  intro ts
  refine Ahead.bind (blames_get ts) ?_
  rintro _ _ ⟨⟩
  split
  · next t u rest =>
    have hskip {y : Parser Node} (hy : Blames eof y) :
        Ahead eof (t :: u :: rest) ((set rest >>= fun _ => y).run (t :: u :: rest)) :=
      (hy rest).trans ((List.suffix_cons u rest).trans (List.suffix_cons t _))
    split
    · exact hskip (h.expression n).last
    · split
      · refine hskip ((blames_bracketed h).bind fun index => blames_consume.bind fun _ => ?_)
        exact blames_consume.bind fun _ => (h.expression n).last
      · exact blames_ternary h _
  · exact blames_ternary h _

theorem blames_moreArguments (fuel : List Token) :
    Blames eof (moreArguments eof rules n fuel) := by
  induction fuel with
  | nil => exact .pure
  | cons _ fuel ih =>
    refine blames_sees.bind fun _ => .ite (blames_advance.bind fun _ => ?_) .pure
    exact (blames_bracketed h).bind fun e => ih.last

theorem blames_arguments (close : String) : Blames eof (arguments eof rules n close) := by
  refine blames_skipNewlines.bind fun _ => blames_sees.bind fun _ => .ite .pure ?_
  refine (blames_bracketed h).bind fun first => blames_get.bind fun fuel => ?_
  exact (blames_moreArguments h fuel).last

theorem blames_postfixes (fuel : List Token) (node : Node) :
    Blames eof (postfixes eof rules n fuel node) := by
  induction fuel generalizing node with
  | nil => exact .pure
  | cons _ fuel ih =>
    refine blames_sees.bind fun _ => .ite ?_ (blames_sees.bind fun _ => .ite ?_ .pure)
    · refine blames_advance.bind fun _ => (blames_arguments h ")").bind fun args => ?_
      exact blames_consume.bind fun closing => ih _
    · refine blames_advance.bind fun _ => (blames_bracketed h).bind fun index => ?_
      refine blames_sees.bind fun _ => .ite (blames_advance.bind fun _ => ?_) ?_
      · exact (blames_bracketed h).bind fun upTo => blames_consume.bind fun closing => ih _
      · exact blames_consume.bind fun closing => ih _

/-! ## Phrases that stand for themselves -/

theorem blames_moreCases (fuel : List Token) : Blames eof (moreCases eof rules n fuel) := by
  induction fuel with
  | nil => exact .pure
  | cons _ fuel ih =>
    refine blames_get.bind fun _ => .ite ?_ (.ite ?_ .pure)
    · refine blames_skipNewlines.bind fun _ => blames_advance.bind fun _ => ?_
      refine (h.expression n).bind fun condition => (blames_body h).bind fun guarded => ?_
      exact ih.last
    · refine blames_skipNewlines.bind fun _ => blames_advance.bind fun _ => ?_
      exact (blames_body h).last

theorem blames_conditional : Blames eof (conditional eof rules n) := by
  refine blames_consume.bind fun word => (h.expression n).bind fun condition => ?_
  refine (blames_body h).bind fun guarded => blames_get.bind fun fuel => ?_
  exact (blames_moreCases h fuel).last

theorem blames_forLoop : Blames eof (forLoop eof rules n) := by
  refine blames_consume.bind fun word => blames_consumeIdentifier.bind fun name => ?_
  refine blames_consume.bind fun _ => (h.expression n).bind fun first => ?_
  refine blames_sees.bind fun _ => blames_sees.bind fun _ => ?_
  refine .ite (blames_advance.bind fun _ => ?_) (blames_refuse.bind fun _ => ?_)
  all_goals
    refine (h.expression n).bind fun last => blames_sees.bind fun _ => .ite ?_ (blames_body h).last
    exact blames_advance.bind fun _ => (h.expression n).bind fun step => (blames_body h).last

theorem blames_eachLoop : Blames eof (eachLoop eof rules n) := by
  refine blames_consume.bind fun word => blames_consumeIdentifier.bind fun name => ?_
  refine blames_consume.bind fun _ => (h.expression n).bind fun iterable => ?_
  exact (blames_body h).last

theorem blames_whileLoop : Blames eof (whileLoop eof rules n) :=
  blames_consume.bind fun _ => (h.expression n).bind fun _ => (blames_body h).last

theorem blames_function : Blames eof (function eof rules) := by
  refine blames_consume.bind fun word => blames_seesKind.bind fun named => ?_
  refine .ite (blames_advance.bind fun name => ?_) ?_
  all_goals
    refine blames_parameters.bind fun params => blames_sees.bind fun _ => .ite ?_ ?_
    · exact blames_advance.bind fun _ => (h.expression .functionBody).last
    · exact blames_sees.bind fun _ => .ite (blames_block h).last blames_refuse

theorem blames_primary : Blames eof (primary eof rules n) := by
  refine blames_peek.bind fun t => .ite blames_advance.last (.ite blames_advance.last ?_)
  refine .ite blames_advance.last (.ite blames_advance.last ?_)
  refine .ite (blames_conditional h) (.ite (blames_forLoop h) (.ite (blames_eachLoop h) ?_))
  refine .ite (blames_whileLoop h) (.ite (blames_function h) (.ite ?_ (.ite ?_ ?_)))
  · refine blames_advance.bind fun _ => (blames_bracketed h).bind fun e => ?_
    exact blames_consume.last
  · refine blames_advance.bind fun _ => (blames_arguments h "]").bind fun elements => ?_
    exact blames_consume.last
  · exact .ite blames_refuse blames_refuse

theorem blames_unary : Blames eof (unary eof rules n) := by
  refine blames_peek.bind fun t => .ite (blames_advance.bind fun op => (h.unary n).last) ?_
  exact (blames_primary h).bind fun node => blames_get.bind fun fuel => blames_postfixes h fuel node

theorem blames_program : Blames eof (program eof rules) :=
  blames_peek.bind fun _ => (blames_statementList h none).last

end

theorem blames_upTo (eof : Token) (depth : Nat) : (Rules.upTo eof depth).Blames eof := by
  induction depth with
  | zero => exact ⟨fun _ => .giveUp, fun _ => .giveUp⟩
  | succ depth ih => exact ⟨fun _ => blames_expression ih, fun _ => blames_unary ih⟩

end Parser

/-! ## Whole sources -/

def Diagnostic.LiesInFile (file : String) (d : Diagnostic) : Prop :=
  ∃ p q, d.span = ⟨.exact p, .exact q⟩ ∧ p.file = file ∧ q.file = file ∧ p.index < q.index

/-- A refused token stream is refused at one of its tokens. -/
theorem Node.refused_of_ofTokens {depth : Nat} {s : TokenStream} {d : Diagnostic}
    (h : Node.ofTokens depth s = .error d) : ∃ t ∈ s.toList, d.span = t.span := by
  have hblames := Parser.blames_program (Parser.blames_upTo s.eof depth) s.tokens
  unfold Node.ofTokens at h
  cases hrun : (Parser.program s.eof (Parser.Rules.upTo s.eof depth)).run s.tokens with
  | ok r => rw [hrun] at h; cases h
  | error e =>
    rw [hrun] at h hblames
    obtain ⟨rest, hrest, hspan⟩ := hblames
    have hd : d.span = e.span := by cases e <;> cases h <;> rfl
    refine ⟨rest.headD s.eof, ?_, hd.trans hspan⟩
    cases rest with
    | nil => exact List.mem_append_right _ (List.mem_singleton_self _)
    | cons t rest => exact List.mem_append_left _ (hrest.subset List.mem_cons_self)

/-- The lexer refuses one character of its text. -/
theorem TokenStream.liesInFile_of_scan {p : Position} {cs : List Char} {d : Diagnostic}
    (h : scan p cs = .error d) : d.LiesInFile p.file := by
  induction p, cs using scan.induct with
  | case1 p => rw [scan] at h; cases h
  | case2 p c cs complaint hread =>
    rw [scan_error hread] at h
    cases h
    exact ⟨p, p.next, rfl, rfl, rfl, Int.lt_succ _⟩
  | case3 p c cs l taken rest hread stop ih =>
    rw [scan_ok hread] at h
    cases hrest : scan stop rest with
    | error d' =>
      rw [hrest] at h
      cases h
      have hfile := ih hrest
      rwa [Position.file_pastAll] at hfile
    | ok r => rw [hrest] at h; cases h

/-- A source that is no program is refused at a stretch of its own text. -/
theorem Node.liesInFile_of_ofSource {limits : Limits} {source file : String} {d : Diagnostic}
    (h : Node.ofSource limits source file = .error d) : d.LiesInFile file := by
  unfold Node.ofSource at h
  cases hs : TokenStream.ofSource source file with
  | error d' =>
    rw [hs] at h
    cases h
    unfold TokenStream.ofSource at hs
    cases hscan : TokenStream.scan (Position.first file) source.toList with
    | error d' =>
      rw [hscan] at hs
      cases hs
      exact TokenStream.liesInFile_of_scan hscan
    | ok r => rw [hscan] at hs; cases hs
  | ok s =>
    rw [hs] at h
    obtain ⟨t, ht, hspan⟩ := Node.refused_of_ofTokens h
    obtain ⟨hstart, hstop⟩ := TokenStream.file_ofSource hs t ht
    have hlt := (TokenStream.row_ofSource hs).of_mem ht
    exact ⟨t.start, t.stop, hspan, hstart, hstop, hlt.2⟩

end Lumen
