import Lumen.Proofs.Grammar.Brackets
import Lumen.Proofs.Grammar.Respace

/-!
# Newlines in brackets

A program has newlines in round and square brackets only behind a token that lets newlines stand
behind it and before one that lets them stand before it.
-/

namespace Lumen

namespace Due

variable {ds : List Due} {ts opened : List Token} {t : Token}

theorem brackets_settle (ds : List Due) : brackets (settle ds) = brackets ds := by
  rcases ds with _ | ⟨_ | _, ds⟩ <;> rfl

theorem brackets_leave (ds : List Due) : brackets (leave ds) = (brackets ds).tail := by
  induction ds with
  | nil => rfl
  | cons d ds ih =>
    cases d with
    | closing t => rfl
    | body => exact ih

theorem brackets_due (h : t.nest (brackets ds) = some opened) : brackets (t.due ds) = opened := by
  by_cases hopening : t.isOpening
  · rw [Token.nest_opening hopening, Option.some.injEq] at h
    have hdue : t.due ds = .closing t :: (if t.is .paren Token.openBrace then settle ds else ds) :=
      if_pos hopening
    have hbrackets : brackets (if t.is .paren Token.openBrace then settle ds else ds) =
        brackets ds := by
      split
      · exact brackets_settle ds
      · rfl
    rw [hdue, ← h, ← hbrackets]
    rfl
  · by_cases hclosing : t.isClosing
    · obtain ⟨u, hu, -⟩ := Token.closes_of_nest hclosing h
      rw [Token.due, if_neg hopening, if_pos hclosing, brackets_leave, hu, List.tail_cons]
    · rw [Token.nest_other (Bool.eq_false_iff.mpr hopening) (Bool.eq_false_iff.mpr hclosing),
        Option.some.injEq] at h
      rw [Token.due, if_neg hopening, if_neg hclosing, ← h]
      split
      · exact brackets_settle ds
      · split
        · rfl
        · split <;> rfl

/-- The brackets that are still due are those that have not been closed. -/
theorem brackets_dues (h : unclosed (brackets ds) ts = some opened) :
    brackets (Grammar.dues ds ts) = opened := by
  induction ts generalizing ds with
  | nil => exact Option.some.inj h
  | cons t ts ih =>
    rw [unclosed_cons, Option.bind_eq_some_iff] at h
    obtain ⟨inner, ht, h⟩ := h
    rw [← brackets_due ht] at h
    exact ih h

end Due

namespace Grammar

/-- Each newline that stands in round or square brackets may stand where it does. If `loose` holds,
newlines may stand first. -/
def Spaced (loose : Bool) (ds : List Due) : List Token → Prop
  | [] => True
  | t :: ts =>
    (t.isNewline → Due.isBracketed ds → loose ∨ ts.head?.any (Token.loosensBefore ds)) ∧
      Spaced (t.loosensBehind ds) (t.due ds) ts

section

variable {loose : Bool} {ds ds' : List Due} {t u : Token} {ts rest params : List Token}

namespace Spaced

variable {before behind : Bool} {pre post : List Token}

/-- Wherever a newline stands in brackets, a token beside it lets it. -/
theorem isLoose (h : Spaced loose ds (pre ++ t :: post)) (ht : t.isNewline)
    (hds : Due.isBracketed (dues ds pre)) : (pre = [] ∧ loose) ∨ isLoose ds pre post := by
  induction pre generalizing loose ds with
  | nil => exact (h.1 ht hds).imp (fun h => ⟨rfl, h⟩) id
  | cons u pre ih =>
    refine .inr ?_
    rcases ih h.2 hds with ⟨rfl, hu⟩ | hloose
    · simp [Grammar.isLoose, dues, hu]
    · cases pre with
      | nil => exact Bool.or_eq_true_iff.mpr (.inr hloose)
      | cons v pre => rwa [Grammar.isLoose, List.getLast?_cons_cons, List.dropLast_cons_cons]

theorem mono (h : Spaced false ds ts) : Spaced loose ds ts := by
  cases ts with
  | nil => exact h
  | cons t ts => exact ⟨fun ht hds => .inr ((h.1 ht hds).resolve_left Bool.false_ne_true), h.2⟩

theorem cons (ht : t.Acts ds ds' before behind) (h : Spaced behind ds' ts) :
    Spaced loose ds (t :: ts) := by
  refine ⟨fun hnewline => ?_, ?_⟩
  · cases ht.word.symm.trans hnewline
  · rw [ht.due, ht.behind]
    exact h

/-- Newlines where newlines may stand. -/
theorem newlines (h : Newlines ts rest) (hrest : Spaced false ds rest) : Spaced true ds ts := by
  induction h with
  | nil => exact hrest.mono
  | cons ht _ ih =>
    refine ⟨fun _ _ => .inl rfl, ?_⟩
    rw [Token.due_newline ht, Token.loosensBehind_newline ht]
    exact ih hrest

/-- Newlines that stand in no round or square brackets. -/
theorem newlines_outside (h : Newlines ts rest) (hds : Due.isBracketed ds = false)
    (hrest : Spaced false ds rest) : Spaced loose ds ts := by
  induction h generalizing loose with
  | nil => exact hrest.mono
  | cons ht _ ih =>
    refine ⟨fun _ hbracketed => (Bool.false_ne_true (hds.symm.trans hbracketed)).elim, ?_⟩
    rw [Token.due_newline ht]
    exact ih hrest

/-- Newlines before a token that lets them stand before it. -/
theorem newlines_before (h : Newlines ts rest) (hhead : rest.head?.any (Token.loosensBefore ds))
    (hrest : Spaced false ds rest) : Spaced loose ds ts := by
  induction h generalizing loose with
  | nil => exact hrest.mono
  | cons hu h ih =>
    refine ⟨fun _ _ => .inr ?_, ?_⟩
    · cases h with
      | nil => exact hhead
      | cons hv _ => exact Token.loosensBefore_newline hv
    · rw [Token.due_newline hu]
      exact ih hhead hrest

theorem newlines_closing (h : Newlines ts (u :: rest)) (hu : u.is .paren ")" ∨ u.is .paren "]")
    (hrest : Spaced false (.closing t :: ds) (u :: rest)) : Spaced loose (.closing t :: ds) ts :=
  .newlines_before h (Token.acts_closing hu).before hrest

/-- Brackets around what is spaced, where newlines may stand behind the first one. -/
theorem enclosed (ht : t.is .paren "(" ∨ t.is .paren "[") (hu : u.is .paren ")" ∨ u.is .paren "]")
    (h : Spaced false (.closing t :: ds) (u :: rest) → Spaced true (.closing t :: ds) ts)
    (hrest : Spaced false ds rest) : Spaced loose ds (t :: ts) :=
  .cons (Token.acts_opening ht) (h (.cons (Token.acts_closing hu) hrest))

end Spaced

theorem MoreParameters.spaced (h : MoreParameters ts rest params)
    (hhead : rest.head?.any (Token.loosensBefore ds)) (hrest : Spaced false ds rest) :
    ts.head?.any (Token.loosensBefore ds) ∧ Spaced false ds ts := by
  induction h with
  | nil => exact ⟨hhead, hrest⟩
  | cons ht h₁ hname h₂ _ ih =>
    obtain ⟨hhead, hrest⟩ := ih hhead hrest
    refine ⟨(Token.acts_comma ht).before, .cons (Token.acts_comma ht) (.newlines h₁ ?_)⟩
    exact .cons (Token.acts_of_kind hname (by decide)) (.newlines_before h₂ hhead hrest)

theorem Parameters.spaced (h : Parameters ts rest params)
    (hhead : rest.head?.any (Token.loosensBefore ds)) (hrest : Spaced false ds rest) :
    Spaced true ds ts := by
  cases h with
  | nil h => exact .newlines h hrest
  | cons h₁ hname h₂ hmore =>
    obtain ⟨hhead, hrest⟩ := hmore.spaced hhead hrest
    refine .newlines h₁ ?_
    exact .cons (Token.acts_of_kind hname (by decide)) (.newlines_before h₂ hhead hrest)

theorem Named.spaced {name : Option Token} (h : Named ts rest name)
    (hrest : Spaced false ds rest) : Spaced false ds ts := by
  cases h with
  | none => exact hrest
  | some ht => exact .cons (Token.acts_of_kind ht (by decide)) hrest

def Phrase.startsLoose : Phrase → Bool
  | .arguments => true
  | _ => false

/-- What has to hold of the place of a phrase: statements stand in no round or square brackets, and
newlines may stand behind arguments. -/
def Phrase.Fits (ds : List Due) (rest : List Token) : Phrase → Prop
  | .statements | .moreStatements => Due.isBracketed ds = false
  | .arguments | .moreArguments => rest.head?.any (Token.loosensBefore ds)
  | _ => True

theorem isBracketed_brace (ht : t.is .paren Token.openBrace) (ds : List Due) :
    Due.isBracketed (.closing t :: ds) = false := by
  simp [Due.isBracketed, Due.brackets, Due.bracket?, Token.is_of_is ht, Token.openBrace]

variable {r : Reading} {φ : Phrase} {n : Parser.Nesting} {y : Yield}

theorem Derives.loosens (h : Derives r .moreArguments n ts rest y)
    (hrest : rest.head?.any (Token.loosensBefore ds)) : ts.head?.any (Token.loosensBefore ds) := by
  cases h with
  | lastArgument => exact hrest
  | moreArguments ht => exact (Token.acts_comma ht).before

theorem Level.spaced_operand {ℓ : Level}
    (h : ℓ.operand.Fits ds rest → Spaced ℓ.operand.startsLoose (ℓ.operand.dues ds) ts) :
    Spaced false ds ts := by
  cases ℓ <;> exact h trivial

/-- No phrase has a newline in brackets where it may not stand. -/
theorem Derives.spaced (h : Derives r φ n ts rest y) (hφ : φ.Fits ds rest)
    (hrest : Spaced false ds rest) : Spaced φ.startsLoose (φ.dues ds) ts := by
  induction h generalizing ds with
  | noStatements | lastStatement | noChoice | endChain | endSuffixes | lastArgument | endClauses
  | noStep => exact hrest
  | statements _ _ ihs ihss => exact ihs trivial (ihss hφ hrest)
  | moreStatements ht h _ _ ihs ihss =>
    exact .newlines_outside (.cons ht h) hφ (ihs trivial (ihss hφ hrest))
  | block ht h₁ _ h₂ hu ih =>
    have hds := isBracketed_brace ht ds
    refine .cons (Token.acts_openBrace ht) (.newlines_outside h₁ hds (ih hds ?_))
    exact .newlines_outside h₂ hds (.cons (Token.acts_closeBrace hu) hrest)
  | blockBody _ ih | evaluate _ ih | ternary _ ih | unsigned _ ih => exact ih trivial hrest
  | statementBody ht _ ih => exact .cons (Token.acts_colon (.inl ht)) (ih trivial hrest)
  | giveBackNothing ht | breakLoop ht | continueLoop ht | null ht =>
    exact .cons (Token.acts_plain ht (by decide) (by decide)) hrest
  | number ht | text ht | lookup ht => exact .cons (Token.acts_of_kind ht (by decide)) hrest
  | giveBack ht _ _ ih | step ht _ ih =>
    exact .cons (Token.acts_plain ht (by decide) (by decide)) (ih trivial hrest)
  | assign hname hu _ ih =>
    have hvalue : Spaced false _ _ :=
      .cons (Token.acts_plain hu (by decide) (by decide)) (ih trivial hrest)
    exact .cons (Token.acts_of_kind hname (by decide)) hvalue
  | assignIndex hname hu h₁ _ h₂ hv hw _ ihi ih =>
    have hvalue : Spaced false _ _ :=
      .cons (Token.acts_plain hw (by decide) (by decide)) (ih trivial hrest)
    refine .cons (Token.acts_of_kind hname (by decide)) (.enclosed (.inr hu) (.inr hv) ?_ hvalue)
    intro hclosing
    exact .newlines h₁ (ihi trivial (.newlines_closing h₂ (.inr hv) hclosing))
  | condition _ _ ih ih' | target _ _ ih ih' => exact ih trivial (ih' trivial hrest)
  | choice ht _ hu _ iha ihb =>
    have hbranch : Spaced false _ _ := .cons (Token.acts_colon (.inl hu)) (ihb trivial hrest)
    exact .cons (Token.acts_calls ht (by decide)) (iha trivial hbranch)
  | level _ _ ih ih' => exact Level.spaced_operand fun h => ih h (ih' trivial hrest)
  | chain ht _ _ ih ih' =>
    exact .cons (Token.acts_joins ht) (Level.spaced_operand fun h => ih h (ih' trivial hrest))
  | sign ht _ ih => exact .cons (Token.acts_sign ht) (ih trivial hrest)
  | call ht _ hu _ ihargs ih =>
    refine .enclosed (.inl ht) (.inl hu) (fun hclosing => ?_) (ih trivial hrest)
    exact ihargs (Token.acts_closing (.inl hu)).before hclosing
  | index ht h₁ _ h₂ hu _ ihi ih =>
    refine .enclosed (.inr ht) (.inr hu) (fun hclosing => ?_) (ih trivial hrest)
    exact .newlines h₁ (ihi trivial (.newlines_closing h₂ (.inr hu) hclosing))
  | slice ht h₁ _ h₂ hv h₃ _ h₄ hu _ ihi ihj ih =>
    refine .enclosed (.inr ht) (.inr hu) (fun hclosing => ?_) (ih trivial hrest)
    have hto := ihj trivial (.newlines_closing h₄ (.inr hu) hclosing)
    have hcolon : Spaced false _ _ := .cons (Token.acts_sliceColon hv) (.newlines h₃ hto)
    exact .newlines h₁ (ihi trivial (.newlines_before h₂ (Token.acts_sliceColon hv).before hcolon))
  | noArguments h => exact .newlines h hrest
  | arguments h₁ _ h₂ hes ihe ih =>
    exact .newlines h₁ (ihe trivial (.newlines_before h₂ (hes.loosens hφ) (ih hφ hrest)))
  | moreArguments ht h₁ _ h₂ hes ihe ih =>
    have hmore : Spaced false _ _ := .newlines_before h₂ (hes.loosens hφ) (ih hφ hrest)
    exact .cons (Token.acts_comma ht) (.newlines h₁ (ihe trivial hmore))
  | parentheses ht h₁ _ h₂ hu ih =>
    refine .enclosed (.inl ht) (.inl hu) (fun hclosing => ?_) hrest
    exact .newlines h₁ (ih trivial (.newlines_closing h₂ (.inl hu) hclosing))
  | list ht _ hu ih =>
    refine .enclosed (.inr ht) (.inr hu) (fun hclosing => ?_) hrest
    exact ih (Token.acts_closing (.inr hu)).before hclosing
  | conditional ht _ _ _ ihc ihb ih =>
    exact .cons (Token.acts_calls ht (by decide)) (ihc trivial (ihb trivial (ih trivial hrest)))
  | elseIf h ht _ _ _ ihc ihb ih =>
    refine .newlines_before h (Token.acts_case (.inl ht)).before ?_
    exact .cons (Token.acts_case (.inl ht)) (ihc trivial (ihb trivial (ih trivial hrest)))
  | otherwise h ht _ ih =>
    refine .newlines_before h (Token.acts_case (.inr ht)).before ?_
    exact .cons (Token.acts_case (.inr ht)) (ih trivial hrest)
  | forLoop ht hname hu _ hv _ _ _ iha ihb ihstep ih =>
    have hlast : Spaced false _ _ :=
      .cons (Token.acts_colon hv) (ihb trivial (ihstep trivial (ih trivial hrest)))
    have hfirst : Spaced false _ _ :=
      .cons (Token.acts_plain hu (by decide) (by decide)) (iha trivial hlast)
    exact .cons (Token.acts_for ht) (.cons (Token.acts_of_kind hname (by decide)) hfirst)
  | eachLoop ht hname hu _ _ ihe ih =>
    have hin : Spaced false _ _ :=
      .cons (Token.acts_plain hu (by decide) (by decide)) (ihe trivial (ih trivial hrest))
    exact .cons (Token.acts_calls ht (by decide))
      (.cons (Token.acts_of_kind hname (by decide)) hin)
  | whileLoop ht _ _ ihc ih =>
    exact .cons (Token.acts_calls ht (by decide)) (ihc trivial (ih trivial hrest))
  | functionBlock ht hname hu hparams hv _ ih =>
    refine .cons (Token.acts_calls ht (by decide)) (hname.spaced ?_)
    refine .enclosed (.inl hu) (.inl hv) (fun hclosing => ?_) (ih trivial hrest)
    exact hparams.spaced (Token.acts_closing (.inl hv)).before hclosing
  | functionExpression ht hname hu hparams hv hw _ ih =>
    have hbody : Spaced false _ _ := .cons (Token.acts_colon (.inl hw)) (ih trivial hrest)
    refine .cons (Token.acts_calls ht (by decide)) (hname.spaced ?_)
    refine .enclosed (.inl hu) (.inl hv) (fun hclosing => ?_) hbody
    exact hparams.spaced (Token.acts_closing (.inl hv)).before hclosing

theorem Program.spaced {s : TokenStream} {block : Node} (h : Program r s block) :
    Spaced false [] s.tokens := by
  cases h with
  | mk h₁ hss h₂ =>
    have hend : Spaced false [] _ := .newlines_outside h₂ rfl trivial
    exact .newlines_outside h₁ rfl (hss.spaced rfl hend)

end

end Grammar

end Lumen
