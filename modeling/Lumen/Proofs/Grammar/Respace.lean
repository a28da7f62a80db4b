import Lumen.Proofs.Grammar.Dues

/-!
# Newlines that make no difference

Newlines may be put behind a token that lets newlines stand behind it, and before one that lets them
stand before it. Each phrase of the tokens is one of the tokens with the newlines too, and its tree
is the same.
-/

namespace Lumen.Grammar

/-- The tokens with newlines put in where they may stand, if `ds` is due before them. -/
inductive Respaced : List Due → List Token → List Token → Prop where
  | nil {ds} : Respaced ds [] []
  | cons {ds t ts us} : Respaced (t.due ds) ts us → Respaced ds (t :: ts) (t :: us)
  | behind {ds t u ts us} : t.loosensBehind ds → u.isNewline → Respaced (t.due ds) ts us →
      Respaced ds (t :: ts) (t :: u :: us)
  | before {ds t u ts us} : t.loosensBefore ds → u.isNewline → Respaced ds (t :: ts) us →
      Respaced ds (t :: ts) (u :: us)

def dues (ds : List Due) (ts : List Token) : List Due := ts.foldl Token.due ds

/-- A newline may stand between the tokens, where `ds` is due before them: the last token before it
or the first one behind it lets it. -/
def isLoose (ds : List Due) (pre post : List Token) : Bool :=
  pre.getLast?.any (Token.loosensBehind (dues ds pre.dropLast)) ||
    post.head?.any (Token.loosensBefore (dues ds pre))

def Phrase.dues (ds : List Due) : Phrase → List Due
  | .block | .body => .body :: ds
  | _ => ds

theorem Level.dues_operand (ds : List Due) (ℓ : Level) : ℓ.operand.dues ds = ds := by
  cases ℓ <;> rfl

namespace Respaced

variable {ds ds' : List Due} {t b u : Token} {ts ts₁ us pre post : List Token}

theorem refl (ds : List Due) (ts : List Token) : Respaced ds ts ts := by
  induction ts generalizing ds with
  | nil => exact .nil
  | cons t ts ih => exact .cons (ih _)

theorem append_left (h : Respaced (Grammar.dues ds pre) ts us) :
    Respaced ds (pre ++ ts) (pre ++ us) := by
  induction pre generalizing ds with
  | nil => exact h
  | cons t pre ih => exact .cons (ih h)

theorem eq_nil (h : Respaced ds [] us) : us = [] := by
  cases h
  rfl

theorem of_isLoose (hu : u.isNewline) (h : isLoose ds pre post) :
    Respaced ds (pre ++ post) (pre ++ u :: post) := by
  rw [isLoose, Bool.or_eq_true] at h
  rcases h with h | h
  · rcases List.eq_nil_or_concat pre with rfl | ⟨front, t, rfl⟩
    · cases h
    · rw [List.concat_eq_append, List.getLast?_concat, List.dropLast_concat] at h
      rw [List.concat_eq_append, List.append_assoc, List.append_assoc]
      exact append_left (.behind h hu (refl _ _))
  · cases post with
    | nil => cases h
    | cons t post => exact append_left (.before h hu (refl _ _))

/-! ## Tokens that are taken -/

theorem exists_newlines (h : Respaced ds (t :: ts) us) :
    ∃ us₁ us₂, Newlines us (t :: us₁) ∧ Newlines us₁ us₂ ∧ Respaced (t.due ds) ts us₂ ∧
      (t.loosensBefore ds = false → us = t :: us₁) ∧ (t.loosensBehind ds = false → us₁ = us₂) := by
  generalize hts : t :: ts = ts₀ at h
  induction h with
  | nil => cases hts
  | @cons ds t ts us h =>
    cases hts
    exact ⟨us, us, .nil, .nil, h, fun _ => rfl, fun _ => rfl⟩
  | @behind ds t u ts us ht hu h =>
    cases hts
    refine ⟨u :: us, us, .nil, .cons hu .nil, h, fun _ => rfl, fun hnot => ?_⟩
    cases ht.symm.trans hnot
  | @before ds t u ts us ht hu h ih =>
    obtain ⟨us₁, us₂, h₁, h₂, h, -, hbehind⟩ := ih hts
    refine ⟨us₁, us₂, .cons hu h₁, h₂, h, fun hnot => ?_, hbehind⟩
    cases hts
    cases ht.symm.trans hnot

theorem take {before behind : Bool} (h : Respaced ds (t :: ts) us)
    (ht : t.Acts ds ds' before behind) :
    ∃ us₁ us₂, Newlines us (t :: us₁) ∧ Newlines us₁ us₂ ∧ Respaced ds' ts us₂ ∧
      (before = false → us = t :: us₁) ∧ (behind = false → us₁ = us₂) := by
  have h := h.exists_newlines
  rwa [ht.due, ht.before, ht.behind] at h

/-- A token beside which no newlines may stand. -/
theorem word (h : Respaced ds (t :: ts) us) (ht : t.Acts ds ds' false false) :
    ∃ us', us = t :: us' ∧ Respaced ds' ts us' := by
  obtain ⟨us₁, us₂, -, -, h, hbefore, hbehind⟩ := h.take ht
  obtain rfl := hbefore rfl
  obtain rfl := hbehind rfl
  exact ⟨us₁, rfl, h⟩

/-- A token before which newlines may stand. -/
theorem last (h : Respaced ds (t :: ts) us) (ht : t.Acts ds ds' true false) :
    ∃ us', Newlines us (t :: us') ∧ Respaced ds' ts us' := by
  obtain ⟨us₁, us₂, h₁, -, h, -, hbehind⟩ := h.take ht
  obtain rfl := hbehind rfl
  exact ⟨us₁, h₁, h⟩

/-- A token behind which newlines may stand. -/
theorem first (h : Respaced ds (t :: ts) us) (ht : t.Acts ds ds' false true) :
    ∃ us₁ us₂, us = t :: us₁ ∧ Newlines us₁ us₂ ∧ Respaced ds' ts us₂ := by
  obtain ⟨us₁, us₂, -, h₂, hts, hbefore, -⟩ := h.take ht
  obtain rfl := hbefore rfl
  exact ⟨us₁, us₂, rfl, h₂, hts⟩

/-- A token between newlines. -/
theorem between (h : Respaced ds (t :: ts) us) (ht : t.Acts ds ds' true true) :
    ∃ us₁ us₂, Newlines us (t :: us₁) ∧ Newlines us₁ us₂ ∧ Respaced ds' ts us₂ := by
  obtain ⟨us₁, us₂, h₁, h₂, hts, -, -⟩ := h.take ht
  exact ⟨us₁, us₂, h₁, h₂, hts⟩

/-! ## Newlines -/

theorem newline (h : Respaced ds (t :: ts) us) (ht : t.isNewline) :
    ∃ u us₁ us₂, us = u :: us₁ ∧ u.isNewline ∧ Newlines us₁ us₂ ∧ Respaced ds ts us₂ := by
  obtain ⟨us₁, us₂, h₁, h₂, hts, -, -⟩ := h.exists_newlines
  rw [Token.due_newline ht] at hts
  cases h₁ with
  | nil => exact ⟨t, us₁, us₂, rfl, ht, h₂, hts⟩
  | cons hu h₁ => exact ⟨_, _, us₂, rfl, hu, (h₁.trans (.cons ht .nil)).trans h₂, hts⟩

theorem newlines (h : Respaced ds ts us) (hts : Newlines ts ts₁) :
    ∃ us₁, Newlines us us₁ ∧ Respaced ds ts₁ us₁ := by
  induction hts generalizing us with
  | nil => exact ⟨us, .nil, h⟩
  | cons ht _ ih =>
    obtain ⟨u, us₁, us₂, rfl, hu, h₁, h⟩ := h.newline ht
    obtain ⟨us₃, h₂, h⟩ := ih h
    exact ⟨us₃, .cons hu (h₁.trans h₂), h⟩

/-! ## Where phrases end -/

theorem starts_clauses (h : Respaced ds ts us) :
    Tail.clauses.starts us = Tail.clauses.starts ts := by
  have skip {u : Token} {us : List Token} (hu : u.isNewline) :
      Tail.clauses.starts (u :: us) = Tail.clauses.starts us :=
    (Newlines.cons hu .nil).starts_clauses
  induction h with
  | nil => rfl
  | @cons ds t ts us h ih =>
    cases ht : t.isNewline with
    | true => rw [skip ht, skip ht, ih]
    | false => rw [starts_clauses_cons ht, starts_clauses_cons ht]
  | @behind ds t u ts us _ hu _ ih =>
    cases ht : t.isNewline with
    | true => rw [skip ht, skip ht, skip hu, ih]
    | false => rw [starts_clauses_cons ht, starts_clauses_cons ht]
  | before _ hu _ ih => rw [skip hu, ih]

theorem starts {τ : Tail} (h : Respaced ds ts us) (hts : τ.starts ts = false) :
    τ.starts us = false := by
  by_cases hτ : τ = .clauses
  · subst hτ
    exact h.starts_clauses.trans hts
  · cases h with
    | nil => exact hts
    | cons | behind => cases τ <;> first | exact (hτ rfl).elim | exact hts
    | before _ hu =>
      rw [Bool.eq_false_iff]
      intro hs
      exact hτ (Tail.eq_of_accepts (Tail.accepts_of_starts hs) (.inl hu))

theorem ends {r : Reading} {τ : Tail} (h : Respaced ds ts us) (hts : r.Ends τ ts) : r.Ends τ us :=
  fun hr => h.starts (hts hr)

theorem returns {r : Reading} (h : Respaced ds ts us) (hts : r.Returns ts) : r.Returns us := by
  refine hts.imp id fun hts => ?_
  cases h with
  | nil | cons | behind => exact hts
  | before _ hu => simp [endsStatement, hu]

end Respaced

/-! ## Phrases -/

section

variable {ds : List Due} {ts rest us params : List Token}

/-- Newlines behind the last parameter belong to it. -/
theorem MoreParameters.newlines (h : MoreParameters ts us params) (hus : Newlines us rest) :
    ∃ ts', Newlines ts ts' ∧ MoreParameters ts' rest params := by
  induction h with
  | nil => exact ⟨rest, hus, .nil⟩
  | cons ht h₁ hname h₂ _ ih =>
    obtain ⟨ts', h₃, h⟩ := ih hus
    exact ⟨_, .nil, .cons ht h₁ hname (h₂.trans h₃) h⟩

theorem Parameters.newlines (h : Parameters ts us params) (hus : Newlines us rest) :
    Parameters ts rest params := by
  cases h with
  | nil h => exact .nil (h.trans hus)
  | cons h₁ hname h₂ hmore =>
    obtain ⟨ts', h₃, hmore⟩ := hmore.newlines hus
    exact .cons h₁ hname (h₂.trans h₃) hmore

theorem Parameters.behind (h : Parameters us rest params) (hus : Newlines ts us) :
    Parameters ts rest params := by
  cases h with
  | nil h => exact .nil (hus.trans h)
  | cons h₁ hname h₂ hmore => exact .cons (hus.trans h₁) hname h₂ hmore

/-- Newlines may be put before a comma, where they belong to what stands before it. -/
theorem MoreParameters.respace (h : MoreParameters ts rest params) (hus : Respaced ds ts us) :
    ∃ us₀ us', Newlines us us₀ ∧ MoreParameters us₀ us' params ∧ Respaced ds rest us' := by
  induction h generalizing us with
  | nil => exact ⟨us, us, .nil, .nil, hus⟩
  | cons ht h₁ hname h₂ _ ih =>
    obtain ⟨us₁, us₂, h₀, hbehind, hus₁⟩ := hus.between (Token.acts_comma ht)
    obtain ⟨us₃, h₁, hus₂⟩ := hus₁.newlines h₁
    obtain ⟨us₄, rfl, hus₃⟩ := hus₂.word (Token.acts_of_kind hname (by decide))
    obtain ⟨us₅, h₂, hus₄⟩ := hus₃.newlines h₂
    obtain ⟨us₆, us₇, h₃, h, hus₅⟩ := ih hus₄
    exact ⟨_, us₇, h₀, .cons ht (hbehind.trans h₁) hname (h₂.trans h₃) h, hus₅⟩

theorem Parameters.respace (h : Parameters ts rest params) (hus : Respaced ds ts us) :
    ∃ us', Parameters us us' params ∧ Respaced ds rest us' := by
  cases h with
  | nil h =>
    obtain ⟨us₁, h, hus₁⟩ := hus.newlines h
    exact ⟨us₁, .nil h, hus₁⟩
  | cons h₁ hname h₂ hmore =>
    obtain ⟨us₁, h₁, hus₁⟩ := hus.newlines h₁
    obtain ⟨us₂, rfl, hus₂⟩ := hus₁.word (Token.acts_of_kind hname (by decide))
    obtain ⟨us₃, h₂, hus₃⟩ := hus₂.newlines h₂
    obtain ⟨us₄, us₅, h₃, hmore, hus₄⟩ := hmore.respace hus₃
    exact ⟨us₅, .cons h₁ hname (h₂.trans h₃) hmore, hus₄⟩

theorem Named.respace {name : Option Token} (h : Named ts rest name) (hus : Respaced ds ts us) :
    ∃ us', Named us us' name ∧ Respaced ds rest us' := by
  cases h with
  | none => exact ⟨us, .none, hus⟩
  | some ht =>
    obtain ⟨us₁, rfl, hus₁⟩ := hus.word (Token.acts_of_kind ht (by decide))
    exact ⟨us₁, .some ht, hus₁⟩

variable {r : Reading} {φ : Phrase} {n : Parser.Nesting} {y : Yield} {es : List Node}

/-- Newlines behind the last argument belong to it. -/
theorem Derives.moreArguments_newlines (h : Derives r .moreArguments n ts us (.nodes es))
    (hus : Newlines us rest) :
    ∃ ts', Newlines ts ts' ∧ Derives r .moreArguments n ts' rest (.nodes es) := by
  induction es generalizing ts with
  | nil =>
    cases h with
    | lastArgument => exact ⟨rest, hus, .lastArgument⟩
  | cons e es ih =>
    cases h with
    | moreArguments ht h₁ he h₂ hes =>
      obtain ⟨ts', h₃, hes⟩ := ih hes
      exact ⟨_, .nil, .moreArguments ht h₁ he (h₂.trans h₃) hes⟩

theorem Derives.arguments_newlines (h : Derives r .arguments n ts us (.nodes es))
    (hus : Newlines us rest) : Derives r .arguments n ts rest (.nodes es) := by
  cases h with
  | noArguments h => exact .noArguments (h.trans hus)
  | arguments h₁ he h₂ hes =>
    obtain ⟨ts', h₃, hes⟩ := hes.moreArguments_newlines hus
    exact .arguments h₁ he (h₂.trans h₃) hes

theorem Derives.arguments_behind (h : Derives r .arguments n us rest (.nodes es))
    (hus : Newlines ts us) : Derives r .arguments n ts rest (.nodes es) := by
  cases h with
  | noArguments h => exact .noArguments (hus.trans h)
  | arguments h₁ he h₂ hes => exact .arguments (hus.trans h₁) he h₂ hes

/-- The phrase leads over the tokens, or over those behind the newlines that stand before a comma:
they belong to the argument before it. -/
def Follows (r : Reading) (φ : Phrase) (n : Parser.Nesting) (us rest : List Token) (y : Yield) :
    Prop :=
  match φ with
  | .moreArguments => ∃ us', Newlines us us' ∧ Derives r .moreArguments n us' rest y
  | φ => Derives r φ n us rest y

theorem Level.derives_operand {ℓ : Level} (h : Follows r ℓ.operand n ts rest y) :
    Derives r ℓ.operand n ts rest y := by
  cases ℓ <;> exact h

theorem Level.respaced_operand (ℓ : Level) (h : Respaced ds ts us) :
    Respaced (ℓ.operand.dues ds) ts us := by
  rwa [ℓ.dues_operand]

/-- A phrase of tokens is one of the same tokens with newlines, and has the same tree. -/
theorem Derives.respace (h : Derives r φ n ts rest y) (hus : Respaced (φ.dues ds) ts us) :
    ∃ us', Follows r φ n us us' y ∧ Respaced ds rest us' := by
  induction h generalizing ds us with
  | noStatements => exact ⟨us, .noStatements, hus⟩
  | statements _ _ ihs ihss =>
    obtain ⟨us₁, hs, hus₁⟩ := ihs hus
    obtain ⟨us₂, hss, hus₂⟩ := ihss hus₁
    exact ⟨us₂, .statements hs hss, hus₂⟩
  | lastStatement => exact ⟨us, .lastStatement, hus⟩
  | moreStatements ht h₁ _ _ ihs ihss =>
    obtain ⟨u, us₁, us₂, rfl, hu, h₀, hus₁⟩ := hus.newline ht
    obtain ⟨us₃, h₁, hus₂⟩ := hus₁.newlines h₁
    obtain ⟨us₄, hs, hus₃⟩ := ihs hus₂
    obtain ⟨us₅, hss, hus₄⟩ := ihss hus₃
    exact ⟨us₅, .moreStatements hu (h₀.trans h₁) hs hss, hus₄⟩
  | block ht h₁ _ h₂ hu ih =>
    obtain ⟨us₁, rfl, hus₁⟩ := hus.word (Token.acts_openBrace ht)
    obtain ⟨us₂, h₁, hus₂⟩ := hus₁.newlines h₁
    obtain ⟨us₃, hss, hus₃⟩ := ih hus₂
    obtain ⟨us₄, h₂, hus₄⟩ := hus₃.newlines h₂
    obtain ⟨us₅, rfl, hus₅⟩ := hus₄.word (Token.acts_closeBrace hu)
    exact ⟨us₅, .block ht h₁ hss h₂ hu, hus₅⟩
  | blockBody _ ih =>
    obtain ⟨us₁, hb, hus₁⟩ := ih hus
    exact ⟨us₁, .blockBody hb, hus₁⟩
  | statementBody ht _ ih =>
    obtain ⟨us₁, rfl, hus₁⟩ := hus.word (Token.acts_colon (.inl ht))
    obtain ⟨us₂, hs, hus₂⟩ := ih hus₁
    exact ⟨us₂, .statementBody ht hs, hus₂⟩
  | giveBackNothing ht hn hreturns =>
    obtain ⟨us₁, rfl, hus₁⟩ := hus.word (Token.acts_plain ht (by decide) (by decide))
    exact ⟨us₁, .giveBackNothing ht hn (hus₁.returns hreturns), hus₁⟩
  | giveBack ht hn _ ih =>
    obtain ⟨us₁, rfl, hus₁⟩ := hus.word (Token.acts_plain ht (by decide) (by decide))
    obtain ⟨us₂, he, hus₂⟩ := ih hus₁
    exact ⟨us₂, .giveBack ht hn he, hus₂⟩
  | breakLoop ht hn =>
    obtain ⟨us₁, rfl, hus₁⟩ := hus.word (Token.acts_plain ht (by decide) (by decide))
    exact ⟨us₁, .breakLoop ht hn, hus₁⟩
  | continueLoop ht hn =>
    obtain ⟨us₁, rfl, hus₁⟩ := hus.word (Token.acts_plain ht (by decide) (by decide))
    exact ⟨us₁, .continueLoop ht hn, hus₁⟩
  | evaluate _ ih =>
    obtain ⟨us₁, he, hus₁⟩ := ih hus
    exact ⟨us₁, .evaluate he, hus₁⟩
  | assign ht hu _ ih =>
    obtain ⟨us₁, rfl, hus₁⟩ := hus.word (Token.acts_of_kind ht (by decide))
    obtain ⟨us₂, rfl, hus₂⟩ := hus₁.word (Token.acts_plain hu (by decide) (by decide))
    obtain ⟨us₃, he, hus₃⟩ := ih hus₂
    exact ⟨us₃, .assign ht hu he, hus₃⟩
  | assignIndex ht hu h₁ _ h₂ hv hw _ ihi ihe =>
    obtain ⟨us₁, rfl, hus₁⟩ := hus.word (Token.acts_of_kind ht (by decide))
    obtain ⟨us₂, us₃, rfl, h₀, hus₂⟩ := hus₁.first (Token.acts_opening (.inr hu))
    obtain ⟨us₄, h₁, hus₃⟩ := hus₂.newlines h₁
    obtain ⟨us₅, hi, hus₄⟩ := ihi hus₃
    obtain ⟨us₆, h₂, hus₅⟩ := hus₄.newlines h₂
    obtain ⟨us₇, h₃, hus₆⟩ := hus₅.last (Token.acts_closing (.inr hv))
    obtain ⟨us₈, rfl, hus₇⟩ := hus₆.word (Token.acts_plain hw (by decide) (by decide))
    obtain ⟨us₉, he, hus₈⟩ := ihe hus₇
    exact ⟨us₉, .assignIndex ht hu (h₀.trans h₁) hi (h₂.trans h₃) hv hw he, hus₈⟩
  | ternary _ ih =>
    obtain ⟨us₁, he, hus₁⟩ := ih hus
    exact ⟨us₁, .ternary he, hus₁⟩
  | condition _ _ ihc ih =>
    obtain ⟨us₁, hc, hus₁⟩ := ihc hus
    obtain ⟨us₂, he, hus₂⟩ := ih hus₁
    exact ⟨us₂, .condition hc he, hus₂⟩
  | noChoice hends => exact ⟨us, .noChoice (hus.ends hends), hus⟩
  | choice ht _ hu _ iha ihb =>
    obtain ⟨us₁, rfl, hus₁⟩ := hus.word (Token.acts_calls ht (by decide))
    obtain ⟨us₂, ha, hus₂⟩ := iha hus₁
    obtain ⟨us₃, rfl, hus₃⟩ := hus₂.word (Token.acts_colon (.inl hu))
    obtain ⟨us₄, hb, hus₄⟩ := ihb hus₃
    exact ⟨us₄, .choice ht ha hu hb, hus₄⟩
  | level _ _ iha ih =>
    obtain ⟨us₁, ha, hus₁⟩ := iha (Level.respaced_operand _ hus)
    obtain ⟨us₂, he, hus₂⟩ := ih hus₁
    exact ⟨us₂, .level (Level.derives_operand ha) he, hus₂⟩
  | endChain hends => exact ⟨us, .endChain (hus.ends hends), hus⟩
  | chain ht _ _ ihb ih =>
    obtain ⟨us₁, rfl, hus₁⟩ := hus.word (Token.acts_joins ht)
    obtain ⟨us₂, hb, hus₂⟩ := ihb (Level.respaced_operand _ hus₁)
    obtain ⟨us₃, he, hus₃⟩ := ih hus₂
    exact ⟨us₃, .chain ht (Level.derives_operand hb) he, hus₃⟩
  | sign ht _ ih =>
    obtain ⟨us₁, rfl, hus₁⟩ := hus.word (Token.acts_sign ht)
    obtain ⟨us₂, he, hus₂⟩ := ih hus₁
    exact ⟨us₂, .sign ht he, hus₂⟩
  | unsigned _ ih =>
    obtain ⟨us₁, he, hus₁⟩ := ih hus
    exact ⟨us₁, .unsigned he, hus₁⟩
  | target _ _ iha ih =>
    obtain ⟨us₁, ha, hus₁⟩ := iha hus
    obtain ⟨us₂, he, hus₂⟩ := ih hus₁
    exact ⟨us₂, .target ha he, hus₂⟩
  | endSuffixes hends => exact ⟨us, .endSuffixes (hus.ends hends), hus⟩
  | call ht _ hu _ ihargs ih =>
    obtain ⟨us₁, us₂, rfl, h₀, hus₁⟩ := hus.first (Token.acts_opening (.inl ht))
    obtain ⟨us₃, hargs, hus₂⟩ := ihargs hus₁
    obtain ⟨us₄, h₁, hus₃⟩ := hus₂.last (Token.acts_closing (.inl hu))
    obtain ⟨us₅, he, hus₄⟩ := ih hus₃
    exact ⟨us₅, .call ht ((hargs.arguments_behind h₀).arguments_newlines h₁) hu he, hus₄⟩
  | index ht h₁ _ h₂ hu _ ihi ih =>
    obtain ⟨us₁, us₂, rfl, h₀, hus₁⟩ := hus.first (Token.acts_opening (.inr ht))
    obtain ⟨us₃, h₁, hus₂⟩ := hus₁.newlines h₁
    obtain ⟨us₄, hi, hus₃⟩ := ihi hus₂
    obtain ⟨us₅, h₂, hus₄⟩ := hus₃.newlines h₂
    obtain ⟨us₆, h₃, hus₅⟩ := hus₄.last (Token.acts_closing (.inr hu))
    obtain ⟨us₇, he, hus₆⟩ := ih hus₅
    exact ⟨us₇, .index ht (h₀.trans h₁) hi (h₂.trans h₃) hu he, hus₆⟩
  | slice ht h₁ _ h₂ hv h₃ _ h₄ hu _ ihi ihj ih =>
    obtain ⟨us₁, us₂, rfl, h₀, hus₁⟩ := hus.first (Token.acts_opening (.inr ht))
    obtain ⟨us₃, h₁, hus₂⟩ := hus₁.newlines h₁
    obtain ⟨us₄, hi, hus₃⟩ := ihi hus₂
    obtain ⟨us₅, h₂, hus₄⟩ := hus₃.newlines h₂
    obtain ⟨us₆, us₇, hv₁, hv₂, hus₅⟩ := hus₄.between (Token.acts_sliceColon hv)
    obtain ⟨us₈, h₃, hus₆⟩ := hus₅.newlines h₃
    obtain ⟨us₉, hj, hus₇⟩ := ihj hus₆
    obtain ⟨vs₁, h₄, hus₈⟩ := hus₇.newlines h₄
    obtain ⟨vs₂, h₅, hus₉⟩ := hus₈.last (Token.acts_closing (.inr hu))
    obtain ⟨vs₃, he, hus₁₀⟩ := ih hus₉
    exact ⟨vs₃, .slice ht (h₀.trans h₁) hi (h₂.trans hv₁) hv (hv₂.trans h₃) hj (h₄.trans h₅) hu he,
      hus₁₀⟩
  | noArguments h =>
    obtain ⟨us₁, h, hus₁⟩ := hus.newlines h
    exact ⟨us₁, .noArguments h, hus₁⟩
  | arguments h₁ _ h₂ _ ihe ih =>
    obtain ⟨us₁, h₁, hus₁⟩ := hus.newlines h₁
    obtain ⟨us₂, he, hus₂⟩ := ihe hus₁
    obtain ⟨us₃, h₂, hus₃⟩ := hus₂.newlines h₂
    obtain ⟨us₄, ⟨us₅, h₃, hes⟩, hus₄⟩ := ih hus₃
    exact ⟨us₄, .arguments h₁ he (h₂.trans h₃) hes, hus₄⟩
  | lastArgument => exact ⟨us, ⟨us, .nil, .lastArgument⟩, hus⟩
  | moreArguments ht h₁ _ h₂ _ ihe ih =>
    obtain ⟨us₁, us₂, h₀, hbehind, hus₁⟩ := hus.between (Token.acts_comma ht)
    obtain ⟨us₃, h₁, hus₂⟩ := hus₁.newlines h₁
    obtain ⟨us₄, he, hus₃⟩ := ihe hus₂
    obtain ⟨us₅, h₂, hus₄⟩ := hus₃.newlines h₂
    obtain ⟨us₆, ⟨us₇, h₃, hes⟩, hus₅⟩ := ih hus₄
    exact ⟨us₆, ⟨_, h₀, .moreArguments ht (hbehind.trans h₁) he (h₂.trans h₃) hes⟩, hus₅⟩
  | number ht =>
    obtain ⟨us₁, rfl, hus₁⟩ := hus.word (Token.acts_of_kind ht (by decide))
    exact ⟨us₁, .number ht, hus₁⟩
  | text ht =>
    obtain ⟨us₁, rfl, hus₁⟩ := hus.word (Token.acts_of_kind ht (by decide))
    exact ⟨us₁, .text ht, hus₁⟩
  | null ht =>
    obtain ⟨us₁, rfl, hus₁⟩ := hus.word (Token.acts_plain ht (by decide) (by decide))
    exact ⟨us₁, .null ht, hus₁⟩
  | lookup ht =>
    obtain ⟨us₁, rfl, hus₁⟩ := hus.word (Token.acts_of_kind ht (by decide))
    exact ⟨us₁, .lookup ht, hus₁⟩
  | parentheses ht h₁ _ h₂ hu ih =>
    obtain ⟨us₁, us₂, rfl, h₀, hus₁⟩ := hus.first (Token.acts_opening (.inl ht))
    obtain ⟨us₃, h₁, hus₂⟩ := hus₁.newlines h₁
    obtain ⟨us₄, he, hus₃⟩ := ih hus₂
    obtain ⟨us₅, h₂, hus₄⟩ := hus₃.newlines h₂
    obtain ⟨us₆, h₃, hus₅⟩ := hus₄.last (Token.acts_closing (.inl hu))
    exact ⟨us₆, .parentheses ht (h₀.trans h₁) he (h₂.trans h₃) hu, hus₅⟩
  | list ht _ hu ih =>
    obtain ⟨us₁, us₂, rfl, h₀, hus₁⟩ := hus.first (Token.acts_opening (.inr ht))
    obtain ⟨us₃, hes, hus₂⟩ := ih hus₁
    obtain ⟨us₄, h₁, hus₃⟩ := hus₂.last (Token.acts_closing (.inr hu))
    exact ⟨us₄, .list ht ((hes.arguments_behind h₀).arguments_newlines h₁) hu, hus₃⟩
  | conditional ht _ _ _ ihc ihb ih =>
    obtain ⟨us₁, rfl, hus₁⟩ := hus.word (Token.acts_calls ht (by decide))
    obtain ⟨us₂, hc, hus₂⟩ := ihc hus₁
    obtain ⟨us₃, hb, hus₃⟩ := ihb hus₂
    obtain ⟨us₄, hcases, hus₄⟩ := ih hus₃
    exact ⟨us₄, .conditional ht hc hb hcases, hus₄⟩
  | endClauses hends => exact ⟨us, .endClauses (hus.ends hends), hus⟩
  | elseIf h₁ ht _ _ _ ihc ihb ih =>
    obtain ⟨us₁, h₁, hus₁⟩ := hus.newlines h₁
    obtain ⟨us₂, h₂, hus₂⟩ := hus₁.last (Token.acts_case (.inl ht))
    obtain ⟨us₃, hc, hus₃⟩ := ihc hus₂
    obtain ⟨us₄, hb, hus₄⟩ := ihb hus₃
    obtain ⟨us₅, hcases, hus₅⟩ := ih hus₄
    exact ⟨us₅, .elseIf (h₁.trans h₂) ht hc hb hcases, hus₅⟩
  | otherwise h₁ ht _ ih =>
    obtain ⟨us₁, h₁, hus₁⟩ := hus.newlines h₁
    obtain ⟨us₂, h₂, hus₂⟩ := hus₁.last (Token.acts_case (.inr ht))
    obtain ⟨us₃, hb, hus₃⟩ := ih hus₂
    exact ⟨us₃, .otherwise (h₁.trans h₂) ht hb, hus₃⟩
  | forLoop ht hname hu _ hv _ _ _ iha ihb ihstep ih =>
    obtain ⟨us₁, rfl, hus₁⟩ := hus.word (Token.acts_for ht)
    obtain ⟨us₂, rfl, hus₂⟩ := hus₁.word (Token.acts_of_kind hname (by decide))
    obtain ⟨us₃, rfl, hus₃⟩ := hus₂.word (Token.acts_plain hu (by decide) (by decide))
    obtain ⟨us₄, ha, hus₄⟩ := iha hus₃
    obtain ⟨us₅, rfl, hus₅⟩ := hus₄.word (Token.acts_colon hv)
    obtain ⟨us₆, hb, hus₆⟩ := ihb hus₅
    obtain ⟨us₇, hstep, hus₇⟩ := ihstep hus₆
    obtain ⟨us₈, hbody, hus₈⟩ := ih hus₇
    exact ⟨us₈, .forLoop ht hname hu ha hv hb hstep hbody, hus₈⟩
  | noStep => exact ⟨us, .noStep, hus⟩
  | step ht _ ih =>
    obtain ⟨us₁, rfl, hus₁⟩ := hus.word (Token.acts_plain ht (by decide) (by decide))
    obtain ⟨us₂, he, hus₂⟩ := ih hus₁
    exact ⟨us₂, .step ht he, hus₂⟩
  | eachLoop ht hname hu _ _ ihe ih =>
    obtain ⟨us₁, rfl, hus₁⟩ := hus.word (Token.acts_calls ht (by decide))
    obtain ⟨us₂, rfl, hus₂⟩ := hus₁.word (Token.acts_of_kind hname (by decide))
    obtain ⟨us₃, rfl, hus₃⟩ := hus₂.word (Token.acts_plain hu (by decide) (by decide))
    obtain ⟨us₄, he, hus₄⟩ := ihe hus₃
    obtain ⟨us₅, hbody, hus₅⟩ := ih hus₄
    exact ⟨us₅, .eachLoop ht hname hu he hbody, hus₅⟩
  | whileLoop ht _ _ ihc ih =>
    obtain ⟨us₁, rfl, hus₁⟩ := hus.word (Token.acts_calls ht (by decide))
    obtain ⟨us₂, hc, hus₂⟩ := ihc hus₁
    obtain ⟨us₃, hbody, hus₃⟩ := ih hus₂
    exact ⟨us₃, .whileLoop ht hc hbody, hus₃⟩
  | functionBlock ht hname hu hparams hv _ ih =>
    obtain ⟨us₁, rfl, hus₁⟩ := hus.word (Token.acts_calls ht (by decide))
    obtain ⟨us₂, hname, hus₂⟩ := hname.respace hus₁
    obtain ⟨us₃, us₄, rfl, h₀, hus₃⟩ := hus₂.first (Token.acts_opening (.inl hu))
    obtain ⟨us₅, hparams, hus₄⟩ := hparams.respace hus₃
    obtain ⟨us₆, h₁, hus₅⟩ := hus₄.last (Token.acts_closing (.inl hv))
    obtain ⟨us₇, hbody, hus₆⟩ := ih hus₅
    exact ⟨us₇, .functionBlock ht hname hu ((hparams.behind h₀).newlines h₁) hv hbody, hus₆⟩
  | functionExpression ht hname hu hparams hv hw _ ih =>
    obtain ⟨us₁, rfl, hus₁⟩ := hus.word (Token.acts_calls ht (by decide))
    obtain ⟨us₂, hname, hus₂⟩ := hname.respace hus₁
    obtain ⟨us₃, us₄, rfl, h₀, hus₃⟩ := hus₂.first (Token.acts_opening (.inl hu))
    obtain ⟨us₅, hparams, hus₄⟩ := hparams.respace hus₃
    obtain ⟨us₆, h₁, hus₅⟩ := hus₄.last (Token.acts_closing (.inl hv))
    obtain ⟨us₇, rfl, hus₆⟩ := hus₅.word (Token.acts_colon (.inl hw))
    obtain ⟨us₈, hbody, hus₇⟩ := ih hus₆
    exact ⟨us₈, .functionExpression ht hname hu ((hparams.behind h₀).newlines h₁) hv hw hbody, hus₇⟩

/-- A program stays one with newlines behind its first token, and its tree is the same. -/
theorem Program.respace {s : TokenStream} {block : Node} (h : Program r s block)
    (hus : Respaced [] s.tokens us) (hhead : us.head? = s.tokens.head?) :
    Program r ⟨us, s.eof⟩ block := by
  cases h with
  | mk h₁ hss h₂ =>
    obtain ⟨us₁, h₁, hus₁⟩ := hus.newlines h₁
    obtain ⟨us₂, hss, hus₂⟩ := hss.respace hus₁
    obtain ⟨us₃, h₂, hus₃⟩ := hus₂.newlines h₂
    obtain rfl := hus₃.eq_nil
    have hstart : s.tokens.headD s.eof = us.headD s.eof := by
      rw [List.headD_eq_head?_getD, List.headD_eq_head?_getD, hhead]
    rw [hstart]
    exact .mk h₁ hss h₂

end

end Lumen.Grammar
