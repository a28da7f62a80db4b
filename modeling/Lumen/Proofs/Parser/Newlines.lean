import Lumen.Proofs.Grammar.Spaced
import Lumen.Proofs.Parser.Completeness

/-!
# Newlines in round and square brackets

The parser skips a newline in brackets only beside the brackets, beside commas and the colon of a
slice, beside other newlines, and before `elif` and `else`. There it makes no difference; anywhere
else in the brackets it makes the parser refuse the text.
-/

namespace Lumen.Parser

open Grammar (isLoose)

/-- A newline that is put between two tokens in round or square brackets of a program changes
nothing if a token beside it lets it stand there; otherwise the text is no program any more. -/
theorem ofTokens_newline {depth : Nat} {s : TokenStream} {block : Node}
    {pre post outer : List Token} {b u : Token} (heof : s.eof.kind = .eof)
    (htokens : ∀ t ∈ s.tokens, t.kind ≠ .eof) (hparsed : Node.ofTokens depth s = .ok block)
    (hsplit : s.tokens = pre ++ post) (hopen : unclosed [] pre = some (b :: outer))
    (hb : b.is .paren "(" ∨ b.is .paren "[") (hu : u.isNewline) :
    if isLoose [] pre post then
      ∀ depth', Node.ofTokens depth' ⟨pre ++ u :: post, s.eof⟩ = .ok block ∨
        depth' < 2 * (pre ++ u :: post).length ∧
          Node.TooDeep (Node.ofTokens depth' ⟨pre ++ u :: post, s.eof⟩)
    else ∀ depth' block', Node.ofTokens depth' ⟨pre ++ u :: post, s.eof⟩ ≠ .ok block' := by
  have hpre : pre ≠ [] := by
    rintro rfl
    cases hopen
  split
  · next hloose =>
    intro depth'
    have hprogram := program_of_ofTokens heof htokens hparsed
    have hrespaced : Grammar.Respaced [] s.tokens (pre ++ u :: post) :=
      hsplit ▸ .of_isLoose hu hloose
    have hhead : (pre ++ u :: post).head? = s.tokens.head? := by
      rw [hsplit, List.head?_append_of_ne_nil _ hpre, List.head?_append_of_ne_nil _ hpre]
    exact ofTokens_of_runs (runs_program depth' heof (hprogram.respace hrespaced hhead))
  · next hloose =>
    intro depth' block' hparsed'
    obtain ⟨hbefore, hbehind⟩ := List.forall_mem_append.mp (hsplit ▸ htokens)
    have hkind : u.kind ≠ .eof := by simp [Grammar.kind_of_isNewline hu]
    have htokens' : ∀ t ∈ pre ++ u :: post, t.kind ≠ .eof :=
      List.forall_mem_append.mpr ⟨hbefore, List.forall_mem_cons.mpr ⟨hkind, hbehind⟩⟩
    have hprogram := program_of_ofTokens (s := ⟨pre ++ u :: post, s.eof⟩) heof htokens' hparsed'
    have hopen : unclosed (Due.brackets []) pre = some (b :: outer) := hopen
    have hbracketed : Due.isBracketed (Grammar.dues [] pre) := by
      rw [Due.isBracketed, Due.brackets_dues hopen]
      simpa using hb
    exact hloose ((hprogram.spaced.isLoose hu hbracketed).resolve_left fun h => hpre h.1)

/-- A newline behind the comma of a call changes nothing. -/
theorem ofTokens_newline_comma :
    let p : Position := ⟨"f", 1, 1, 0⟩
    let word (kind : TokenKind) (s : String) : Token := ⟨kind, .text s, p, p⟩
    let eof : Token := ⟨.eof, .null, p, p⟩
    let u : Token := ⟨.newline, .null, p, p⟩
    let b := word .paren "("
    let pre := [word .identifier "f", b, word .identifier "x", word .paren ","]
    let post := [word .identifier "y", word .paren ")"]
    let block := Node.block [.call (.lookup (word .identifier "f"))
      [.lookup (word .identifier "x"), .lookup (word .identifier "y")] p] p p
    Node.ofTokens 12 ⟨pre ++ post, eof⟩ = .ok block ∧ unclosed [] pre = some [b] ∧
      isLoose [] pre post ∧
      ∀ depth, Node.ofTokens depth ⟨pre ++ u :: post, eof⟩ = .ok block ∨
        depth < 2 * (pre ++ u :: post).length ∧
          Node.TooDeep (Node.ofTokens depth ⟨pre ++ u :: post, eof⟩) := by
  intro p word eof u b pre post block
  have hparsed : Node.ofTokens 12 ⟨pre ++ post, eof⟩ = .ok block := by cbv
  have hopen : unclosed [] pre = some [b] := rfl
  have hloose : isLoose [] pre post := by decide
  have h := ofTokens_newline rfl (by decide) hparsed rfl hopen (.inl (by decide)) (u := u) rfl
  rw [if_pos hloose] at h
  exact ⟨hparsed, hopen, hloose, h⟩

/-- Not every newline in brackets is skipped: with one before the sign `(x + y)` is refused. -/
theorem not_forall_newline :
    ¬ ∀ (depth : Nat) (s : TokenStream) (block : Node) (pre post outer : List Token) (b u : Token),
      s.eof.kind = .eof → (∀ t ∈ s.tokens, t.kind ≠ .eof) → Node.ofTokens depth s = .ok block →
      s.tokens = pre ++ post → unclosed [] pre = some (b :: outer) →
      b.is .paren "(" ∨ b.is .paren "[" → u.isNewline →
      ∃ depth' block', Node.ofTokens depth' ⟨pre ++ u :: post, s.eof⟩ = .ok block' ∧
        block'.erase = block.erase := by
  intro h
  let p : Position := ⟨"f", 1, 1, 0⟩
  let word (kind : TokenKind) (s : String) : Token := ⟨kind, .text s, p, p⟩
  let eof : Token := ⟨.eof, .null, p, p⟩
  let u : Token := ⟨.newline, .null, p, p⟩
  let b := word .paren "("
  let plus := word .operator "+"
  let pre := [b, word .identifier "x"]
  let post := [plus, word .identifier "y", word .paren ")"]
  let block := Node.block [.binary (.lookup (word .identifier "x")) plus
    (.lookup (word .identifier "y"))] p p
  have hparsed : Node.ofTokens 10 ⟨pre ++ post, eof⟩ = .ok block := by cbv
  have hrefused : Node.ofTokens 12 ⟨pre ++ u :: post, eof⟩ =
      .error (Diagnostic.onSpan (.expected "')'") plus.span) := by
    clear hparsed
    cbv
  obtain ⟨depth, block', hparsed', -⟩ := h 10 ⟨pre ++ post, eof⟩ block pre post [] b u rfl
    (by decide) hparsed rfl rfl (.inl (by decide)) rfl
  exact ofTokens_ne_ok rfl (by decide) (by decide) hrefused depth block' hparsed'

end Lumen.Parser
