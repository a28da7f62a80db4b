import Lumen.Proofs.Node.Words
import Lumen.Proofs.Parser.Completeness

/-!
# What is written is read back

The words of a well-formed program have a greedy derivation that yields the program up to its
positions, whatever places the words are given. A newline that is written behind a `return` may be
left over; it stands where newlines are skipped.
-/

namespace Lumen

open Lumen.Parser (Nesting)

namespace Grammar

section

variable {t : Token} {ts rest : List Token}

theorem Newlines.before (h : Newlines ts (t :: rest)) (ht : t.isNewline) :
    ∃ u us, ts = u :: us ∧ u.isNewline ∧ Newlines us rest := by
  cases h with
  | nil => exact ⟨t, rest, rfl, ht, .nil⟩
  | cons hu h => exact ⟨_, _, rfl, hu, h.trans (.cons ht .nil)⟩

end

end Grammar

namespace Token

variable {t u : Token}

theorem is_of_word {k : TokenKind} {s : String} (h : t.word = (k, .text s)) : t.is k s := by
  obtain ⟨hk, hv⟩ := Prod.mk.inj h
  simp [Token.is, hk, hv]

theorem isNewline_of_word (h : t.word = .newline) : t.isNewline := by
  simp [isNewline, (Prod.mk.inj h).1]

theorem is_eq_of_word (h : t.word = u.word) : t.is = u.is := by
  obtain ⟨hk, hv⟩ := Prod.mk.inj h
  funext k s
  rw [Token.is, Token.is, hk, hv]

theorem kind_of_word (h : t.word = u.word) : t.kind = u.kind := (Prod.mk.inj h).1

theorem erase_of_word (h : t.word = u.word) : t.erase = u.erase :=
  (erase_eq_erase_iff t u).mpr (Prod.mk.inj h)

theorem joins_of_word {ℓ : Grammar.Level} (h : t.word = u.word) (hu : ℓ.joins u) : ℓ.joins t := by
  rwa [Grammar.Level.joins, is_eq_of_word h]

theorem isSign_of_word (h : t.word = u.word) (hu : Grammar.isSign u) : Grammar.isSign t := by
  rwa [Grammar.isSign, is_eq_of_word h]

end Token

namespace Node

open Grammar

def Spells (ts : List Token) (ws : List Word) : Prop := ts.map Token.word = ws

section

variable {ts : List Token} {ws ws' : List Word} {w : Word}

theorem spells_nil (h : Spells ts []) : ts = [] := List.map_eq_nil_iff.mp h

theorem spells_cons (h : Spells ts (w :: ws)) : ∃ t us, ts = t :: us ∧ t.word = w ∧ Spells us ws :=
  List.map_eq_cons_iff.mp h

theorem spells_append (h : Spells ts (ws ++ ws')) :
    ∃ us us', ts = us ++ us' ∧ Spells us ws ∧ Spells us' ws' := List.map_eq_append_iff.mp h

theorem spells_singleton (h : Spells ts [w]) : ∃ t, ts = [t] ∧ t.word = w := by
  obtain ⟨t, us, rfl, ht, hus⟩ := spells_cons h
  obtain rfl := spells_nil hus
  exact ⟨t, rfl, ht⟩

/-- Some words and one more, with what stands behind them. -/
theorem spells_concat (h : Spells ts (ws ++ [w])) :
    ∃ us t, (∀ rest, ts ++ rest = us ++ t :: rest) ∧ Spells us ws ∧ t.word = w := by
  obtain ⟨us, us', rfl, hus, hus'⟩ := spells_append h
  obtain ⟨t, rfl, ht⟩ := spells_singleton hus'
  exact ⟨us, t, fun rest => by rw [List.append_assoc, List.singleton_append], hus, ht⟩

end

/-- The phrase is derived up to `rest` but for newlines, and yields the node up to its positions. -/
def Recovers (φ : Phrase) (n : Nesting) (ts rest : List Token) (e : Node) : Prop :=
  ∃ e' rest', Derives .greedy φ n ts rest' (.node e') ∧ Newlines rest' rest ∧ e'.erase = e.erase

/-- A node is read back from its words where its role puts it. -/
def Role.Recovered : Role → Nesting → Node → Prop
  | expression, n, e => ∀ ts rest, Spells ts e.words → Barrier rest →
    Recovers .expression n (ts ++ rest) rest e
  | jump, n, e => ∀ ts rest, Spells ts e.words → Quiet rest →
    Recovers .statement n (ts ++ rest) rest e
  | statement, n, e => ∀ ts rest, Spells ts e.words → Barrier rest →
    Recovers .statement n (ts ++ rest) rest e
  | body, n, e => ∀ ts rest, Spells ts (Word.ofBody e e.words) → Quiet rest →
    Recovers .body n (ts ++ rest) rest e
  | block, n, e => ∀ ts rest, Spells ts e.words → Recovers .block n (ts ++ rest) rest e

section

variable {n : Nesting} {t u : Token} {ts us rest : List Token} {e e' : Node} {es : List Node}

/-! ## Expressions in brackets -/

theorem recovers_primary (h : Role.expression.Recovered n e) (hts : Spells ts (Word.enclose e.words))
    (rest : List Token) :
    ∃ e', Derives .greedy .primary n (ts ++ rest) rest (.node e') ∧ e'.erase = e.erase := by
  obtain ⟨t, us, rfl, ht, hus⟩ := spells_cons hts
  obtain ⟨vs, u, hvs, he, hu⟩ := spells_concat hus
  have hu := Token.is_of_word hu
  obtain ⟨e', rest', hd, hn, heq⟩ := h vs (u :: rest) he (barrier_of_is hu (by decide))
  refine ⟨e', ?_, heq⟩
  rw [List.cons_append, hvs]
  exact .parentheses (Token.is_of_word ht) .nil hd hn hu

theorem recovers_enclosed (h : Role.expression.Recovered n e)
    (hts : Spells ts (Word.enclose e.words)) (hrest : Quiet rest) :
    ∃ e', Derives .greedy .expression n (ts ++ rest) rest (.node e') ∧ e'.erase = e.erase := by
  obtain ⟨e', hd, heq⟩ := recovers_primary h hts rest
  exact ⟨e', (hd.unary_of_primary (ends_of_quiet hrest (by simp))).expression_of_unary hrest, heq⟩

theorem Recovers.of_derives {φ : Phrase} (h : Derives .greedy φ n ts rest (.node e'))
    (heq : e'.erase = e.erase) : Recovers φ n ts rest e := ⟨e', rest, h, .nil, heq⟩

theorem Recovers.expression_of_unary (h : Recovers .unary n ts rest e) (hrest : Barrier rest) :
    Recovers .expression n ts rest e := by
  obtain ⟨e', rest', hd, hn, heq⟩ := h
  exact ⟨e', rest', hd.expression_of_unary (hn.barrier hrest).quiet, hn, heq⟩

theorem Recovers.expression_of_primary (h : Recovers .primary n ts rest e) (hrest : Barrier rest) :
    Recovers .expression n ts rest e := by
  obtain ⟨e', rest', hd, hn, heq⟩ := h
  have hquiet := (hn.barrier hrest).quiet
  have hunary := hd.unary_of_primary (ends_of_quiet hquiet (by simp))
  exact ⟨e', rest', hunary.expression_of_unary hquiet, hn, heq⟩

theorem recovered_literal {mk : Token → Node} (hwords : (mk t).words = [t.word])
    (herase : ∀ u, (mk u).erase = mk u.erase)
    (h : ∀ u rest, u.word = t.word → Derives .greedy .primary n (u :: rest) rest (.node (mk u))) :
    Role.expression.Recovered n (mk t) := by
  intro ts rest hts hrest
  rw [hwords] at hts
  obtain ⟨u, rfl, hu⟩ := spells_singleton hts
  apply Recovers.expression_of_primary _ hrest
  apply Recovers.of_derives (h u rest hu)
  rw [herase, herase, Token.erase_of_word hu]

/-! ## Lists of arguments -/

theorem recovers_moreArguments (hes : ∀ e ∈ es, Role.expression.Recovered n e)
    (hts : Spells ts (wordsOfMoreArguments es)) (hrest : Barrier rest) :
    ∃ es', Derives .greedy .moreArguments n (ts ++ rest) rest (.nodes es') ∧
      es'.map erase = es.map erase := by
  induction es generalizing ts with
  | nil =>
    obtain rfl := spells_nil hts
    exact ⟨[], .lastArgument, rfl⟩
  | cons e es ih =>
    obtain ⟨t, us, rfl, ht, hus⟩ := spells_cons hts
    obtain ⟨vs, vs', rfl, hvs, hvs'⟩ := spells_append hus
    obtain ⟨es', hmore, hes'⟩ := ih (fun e he => hes e (List.mem_cons_of_mem _ he)) hvs'
    have hquiet := (hmore.barrier_moreArguments hrest).quiet
    obtain ⟨e', he, heq⟩ := recovers_enclosed (hes e List.mem_cons_self) hvs hquiet
    refine ⟨e' :: es', ?_, by rw [List.map_cons, List.map_cons, heq, hes']⟩
    rw [List.cons_append, List.append_assoc]
    exact .moreArguments (Token.is_of_word ht) .nil he .nil hmore

theorem recovers_arguments (hes : ∀ e ∈ es, Role.expression.Recovered n e)
    (hts : Spells ts (wordsOfArguments es)) (hrest : Barrier rest) :
    ∃ es', Derives .greedy .arguments n (ts ++ rest) rest (.nodes es') ∧
      es'.map erase = es.map erase := by
  cases es with
  | nil =>
    obtain rfl := spells_nil hts
    exact ⟨[], .noArguments .nil, rfl⟩
  | cons e es =>
    obtain ⟨vs, vs', rfl, hvs, hvs'⟩ := spells_append hts
    obtain ⟨es', hmore, hes'⟩ :=
      recovers_moreArguments (fun e he => hes e (List.mem_cons_of_mem _ he)) hvs' hrest
    have hquiet := (hmore.barrier_moreArguments hrest).quiet
    obtain ⟨e', he, heq⟩ := recovers_enclosed (hes e List.mem_cons_self) hvs hquiet
    refine ⟨e' :: es', ?_, by rw [List.map_cons, List.map_cons, heq, hes']⟩
    rw [List.append_assoc]
    exact .arguments .nil he .nil hmore

end

/-! ## Expressions -/

section

variable {n : Nesting} {t op : Token} {ts rest : List Token} {a b c e : Node} {es : List Node}
  {o : Option Node} {p q : Position}

theorem recovered_list (hes : ∀ e ∈ es, Role.expression.Recovered n e) :
    Role.expression.Recovered n (.list es p q) := by
  intro ts rest hts hrest
  obtain ⟨t, us, rfl, ht, hus⟩ := spells_cons hts
  obtain ⟨vs, u, hvs, hargs, hu⟩ := spells_concat hus
  have hu := Token.is_of_word hu
  have hbarrier : Barrier (u :: rest) := barrier_of_is hu (by decide)
  obtain ⟨es', hd, heq⟩ := recovers_arguments hes hargs hbarrier
  apply Recovers.expression_of_primary _ hrest
  rw [List.cons_append, hvs]
  apply Recovers.of_derives (.list (Token.is_of_word ht) hd hu)
  rw [erase_list, erase_list, heq]

theorem recovered_ternary (hc : Role.expression.Recovered n c) (ha : Role.expression.Recovered n a)
    (hb : Role.expression.Recovered n b) : Role.expression.Recovered n (.ternary c a b) := by
  intro ts rest hts hrest
  obtain ⟨us, _, rfl, hus, h₁⟩ := spells_append hts
  obtain ⟨t, _, rfl, ht, h₂⟩ := spells_cons h₁
  obtain ⟨vs, _, rfl, hvs, h₃⟩ := spells_append h₂
  obtain ⟨u, ws, rfl, hu, hws⟩ := spells_cons h₃
  have ht := Token.is_of_word ht
  have hu := Token.is_of_word hu
  have hcolon : Quiet (u :: (ws ++ rest)) := (barrier_of_is hu (by decide)).quiet
  obtain ⟨b', hb', hbe⟩ := recovers_enclosed hb hws hrest.quiet
  obtain ⟨a', ha', hae⟩ := recovers_enclosed ha hvs hcolon
  obtain ⟨c', hc', hce⟩ := recovers_primary hc hus (t :: (vs ++ u :: (ws ++ rest)))
  have hsign : Tail.choice.starts (t :: (vs ++ u :: (ws ++ rest))) := ht
  have hcondition : Derives .greedy (.level .logical) n
      (us ++ t :: (vs ++ u :: (ws ++ rest))) (t :: (vs ++ u :: (ws ++ rest))) (.node c') :=
    .level ((hc'.unary_of_primary (ends_of_starts_other hsign (by decide))).operand_of_unary _
      fun ℓ' _ => ends_of_starts_other hsign (by simp)) (.endChain (ends_of_starts_other hsign
        (by decide)))
  simp only [List.append_assoc, List.cons_append]
  apply Recovers.of_derives (.ternary (.condition hcondition (.choice ht ha' hu hb')))
  rw [erase_ternary, erase_ternary, hce, hae, hbe]

theorem recovered_binary {ℓ : Level} (hop : ℓ.joins op) (ha : Role.expression.Recovered n a)
    (hb : Role.expression.Recovered n b) : Role.expression.Recovered n (.binary a op b) := by
  intro ts rest hts hrest
  obtain ⟨us, vs, rfl, hus, hvs⟩ := spells_append hts
  obtain ⟨t, vs, rfl, ht, hvs⟩ := spells_cons hvs
  have hjoins := Token.joins_of_word ht hop
  have hquiet := hrest.quiet
  obtain ⟨b', hb', hbe⟩ := recovers_primary hb hvs rest
  obtain ⟨a', ha', hae⟩ := recovers_primary ha hus (t :: (vs ++ rest))
  have hstarts : (Tail.chain ℓ).starts (t :: (vs ++ rest)) := hjoins
  have hleft : Derives .greedy ℓ.operand n (us ++ t :: (vs ++ rest)) (t :: (vs ++ rest))
      (.node a') :=
    (ha'.unary_of_primary (ends_of_starts_other hstarts (by simp))).operand_of_unary _
      fun ℓ' hne => ends_of_starts_other hstarts (by simpa using hne)
  have hright : Derives .greedy ℓ.operand n (vs ++ rest) rest (.node b') :=
    (hb'.unary_of_primary (ends_of_quiet hquiet (by simp))).operand_of_unary _
      fun ℓ' _ => ends_of_quiet hquiet (by simp)
  have hlevel : Derives .greedy (.level ℓ) n (us ++ t :: (vs ++ rest)) rest
      (.node (.binary a' t b')) :=
    .level hleft (.chain hjoins hright (.endChain (ends_of_quiet hquiet (by simp))))
  rw [List.append_assoc, List.cons_append]
  apply Recovers.of_derives (hlevel.expression_of_greedy_level _ hquiet)
  rw [erase_binary, erase_binary, hae, hbe, Token.erase_of_word ht]

theorem recovered_unary (hop : isSign op) (he : Role.expression.Recovered n e) :
    Role.expression.Recovered n (.unary op e) := by
  intro ts rest hts hrest
  obtain ⟨t, us, rfl, ht, hus⟩ := spells_cons hts
  obtain ⟨e', hd, heq⟩ := recovers_primary he hus rest
  have hunary := hd.unary_of_primary (ends_of_quiet hrest.quiet (by simp))
  apply Recovers.expression_of_unary _ hrest
  apply Recovers.of_derives (.sign (Token.isSign_of_word ht hop) hunary)
  rw [erase_unary, erase_unary, heq, Token.erase_of_word ht]

theorem recovered_assign (ht : t.kind = .identifier) (he : Role.expression.Recovered n e) :
    Role.expression.Recovered n (.assign t e) := by
  intro ts rest hts hrest
  obtain ⟨name, us, rfl, hname, hus⟩ := spells_cons hts
  obtain ⟨u, us, rfl, hu, hus⟩ := spells_cons hus
  obtain ⟨e', hd, heq⟩ := recovers_enclosed he hus hrest.quiet
  have hkind := (Token.kind_of_word hname).trans ht
  apply Recovers.of_derives (.assign hkind (Token.is_of_word hu) hd)
  rw [erase_assign, erase_assign, heq, Token.erase_of_word hname]

theorem recovered_assignIndex (ht : t.kind = .identifier) (ha : Role.expression.Recovered n a)
    (he : Role.expression.Recovered n e) : Role.expression.Recovered n (.assignIndex t a e) := by
  intro ts rest hts hrest
  obtain ⟨name, _, rfl, hname, h₁⟩ := spells_cons hts
  obtain ⟨u, _, rfl, hu, h₂⟩ := spells_cons h₁
  obtain ⟨us, _, rfl, hus, h₃⟩ := spells_append h₂
  obtain ⟨v, _, rfl, hv, h₄⟩ := spells_cons h₃
  obtain ⟨w, vs, rfl, hw, hvs⟩ := spells_cons h₄
  have hkind := (Token.kind_of_word hname).trans ht
  have hv := Token.is_of_word hv
  obtain ⟨e', he', hee⟩ := recovers_enclosed he hvs hrest.quiet
  have hclose : Quiet (v :: w :: (vs ++ rest)) := (barrier_of_is hv (by decide)).quiet
  obtain ⟨a', ha', hae⟩ := recovers_enclosed ha hus hclose
  simp only [List.append_assoc, List.cons_append]
  apply Recovers.of_derives
    (.assignIndex hkind (Token.is_of_word hu) .nil ha' .nil hv (Token.is_of_word hw) he')
  rw [erase_assignIndex, erase_assignIndex, hae, hee, Token.erase_of_word hname]

theorem recovered_index (ha : Role.expression.Recovered n a) (hb : Role.expression.Recovered n b)
    (ho : ∀ e ∈ o, Role.expression.Recovered n e) :
    Role.expression.Recovered n (.index a b o q) := by
  intro ts rest hts hrest
  obtain ⟨us, _, rfl, hus, h₁⟩ := spells_append hts
  obtain ⟨t, _, rfl, ht, h₂⟩ := spells_cons h₁
  obtain ⟨vs, _, rfl, hvs, h₃⟩ := spells_append h₂
  obtain ⟨ws, u, hcat, hws, hu⟩ := spells_concat h₃
  have ht := Token.is_of_word ht
  have hu := Token.is_of_word hu
  have hclose : Quiet (u :: rest) := (barrier_of_is hu (by decide)).quiet
  have hends : Reading.greedy.Ends .suffixes rest := ends_of_quiet hrest.quiet (by simp)
  obtain ⟨a', ha', hae⟩ := recovers_primary ha hus (t :: (vs ++ (ws ++ u :: rest)))
  simp only [List.append_assoc, List.cons_append, hcat]
  apply Recovers.expression_of_unary _ hrest
  cases o with
  | none =>
    obtain rfl := spells_nil hws
    obtain ⟨b', hb', hbe⟩ := recovers_enclosed hb hvs hclose
    have hsuffix := Derives.index (a := a') ht .nil hb' .nil hu (.endSuffixes hends)
    apply Recovers.of_derives (.unsigned (.target ha' hsuffix))
    rw [erase_index, erase_index, hae, hbe]
  | some e =>
    obtain ⟨v, ws', rfl, hv, hws'⟩ := spells_cons hws
    have hv := Token.is_of_word hv
    have hcolon : Quiet (v :: (ws' ++ u :: rest)) := (barrier_of_is hv (by decide)).quiet
    obtain ⟨b', hb', hbe⟩ := recovers_enclosed hb hvs hcolon
    obtain ⟨e', he', hee⟩ := recovers_enclosed (ho e rfl) hws' hclose
    have hsuffix := Derives.slice (a := a') ht .nil hb' .nil hv .nil he' .nil hu
      (.endSuffixes hends)
    apply Recovers.of_derives (.unsigned (.target ha' hsuffix))
    rw [erase_index, erase_index, Option.map_some, Option.map_some, hae, hbe, hee]

theorem recovered_call (he : Role.expression.Recovered n e)
    (hes : ∀ e ∈ es, Role.expression.Recovered n e) :
    Role.expression.Recovered n (.call e es q) := by
  intro ts rest hts hrest
  obtain ⟨us, vs, rfl, hus, hvs⟩ := spells_append hts
  obtain ⟨t, vs, rfl, ht, hvs⟩ := spells_cons hvs
  obtain ⟨vs, u, hcat, hvs, hu⟩ := spells_concat hvs
  have ht := Token.is_of_word ht
  have hu := Token.is_of_word hu
  have hbarrier : Barrier (u :: rest) := barrier_of_is hu (by decide)
  obtain ⟨es', hargs, hes'⟩ := recovers_arguments hes hvs hbarrier
  obtain ⟨e', he', hee⟩ := recovers_primary he hus (t :: (vs ++ u :: rest))
  have hends : Reading.greedy.Ends .suffixes rest := ends_of_quiet hrest.quiet (by simp)
  have hsuffix := Derives.call (a := e') ht hargs hu (.endSuffixes hends)
  simp only [List.append_assoc, List.cons_append, hcat]
  apply Recovers.expression_of_unary _ hrest
  apply Recovers.of_derives (.unsigned (.target he' hsuffix))
  rw [erase_call, erase_call, hee, hes']

end

/-! ## Statements -/

section

variable {n : Nesting} {t : Token} {ts us rest : List Token} {e : Node} {ss : List Node}
  {o : Option Node} {p q : Position}

theorem recovered_breakLoop (ht : t.is .keyword "break") (hn : n.inLoop) :
    Role.jump.Recovered n (.breakLoop t) := by
  intro ts rest hts _
  obtain ⟨u, rfl, hu⟩ := spells_singleton hts
  rw [← Token.is_eq_of_word hu] at ht
  apply Recovers.of_derives (.breakLoop ht hn)
  rw [erase_breakLoop, erase_breakLoop, Token.erase_of_word hu]

theorem recovered_continueLoop (ht : t.is .keyword "continue") (hn : n.inLoop) :
    Role.jump.Recovered n (.continueLoop t) := by
  intro ts rest hts _
  obtain ⟨u, rfl, hu⟩ := spells_singleton hts
  rw [← Token.is_eq_of_word hu] at ht
  apply Recovers.of_derives (.continueLoop ht hn)
  rw [erase_continueLoop, erase_continueLoop, Token.erase_of_word hu]

theorem recovered_giveBack (hn : n.inFunction) (ho : ∀ e ∈ o, Role.expression.Recovered n e) :
    Role.jump.Recovered n (.giveBack o p q) := by
  intro ts rest hts hrest
  cases o with
  | none =>
    obtain ⟨t, _, rfl, ht, h₁⟩ := spells_cons hts
    obtain ⟨u, rfl, hu⟩ := spells_singleton h₁
    have hu : u.isNewline := Token.isNewline_of_word hu
    have hends : endsStatement (u :: rest) := by simp [endsStatement, hu]
    refine ⟨_, u :: rest, .giveBackNothing (Token.is_of_word ht) hn (.inr hends), .cons hu .nil, ?_⟩
    rw [erase_giveBack, erase_giveBack]
  | some e =>
    obtain ⟨t, us, rfl, ht, hus⟩ := spells_cons hts
    obtain ⟨e', hd, heq⟩ := recovers_enclosed (ho e rfl) hus hrest
    apply Recovers.of_derives (.giveBack (Token.is_of_word ht) hn hd)
    rw [erase_giveBack, erase_giveBack, Option.map_some, Option.map_some, heq]

theorem recovered_evaluate (h : Role.expression.Recovered n e) : Role.statement.Recovered n e := by
  intro ts rest hts hrest
  obtain ⟨e', rest', hd, hn, heq⟩ := h ts rest hts hrest
  exact ⟨e', rest', .evaluate hd, hn, heq⟩

theorem recovered_jumpStatement (h : Role.jump.Recovered n e) : Role.statement.Recovered n e :=
  fun ts rest hts hrest => h ts rest hts hrest.quiet

theorem recovers_moreStatements (hss : ∀ s ∈ ss, Role.statement.Recovered n s)
    (hts : Spells ts (wordsOfMoreStatements ss)) (hrest : Barrier rest)
    (hus : Newlines us (ts ++ rest)) :
    ∃ ss' rest', Derives .greedy .moreStatements n us rest' (.nodes ss') ∧ Newlines rest' rest ∧
      ss'.map erase = ss.map erase := by
  induction ss generalizing ts us with
  | nil =>
    obtain rfl := spells_nil hts
    exact ⟨[], us, .lastStatement, hus, rfl⟩
  | cons s ss ih =>
    obtain ⟨t, _, rfl, ht, h₁⟩ := spells_cons hts
    obtain ⟨vs, ws, rfl, hvs, hws⟩ := spells_append h₁
    rw [List.cons_append] at hus
    obtain ⟨u, us, rfl, hu, hus⟩ := hus.before (Token.isNewline_of_word ht)
    have ih {us} (hus : Newlines us (ws ++ rest)) :=
      ih (fun s hs => hss s (List.mem_cons_of_mem _ hs)) hws hus
    -- What follows the statement is no part of it, however many newlines it leaves over.
    have hbarrier : Barrier (ws ++ rest) := by
      obtain ⟨_, _, hmore, hn, _⟩ := ih .nil
      exact hmore.barrier_moreStatements (hn.barrier hrest)
    obtain ⟨s', mid, hs, hmid, hse⟩ := hss s List.mem_cons_self vs (ws ++ rest) hvs hbarrier
    obtain ⟨ss', rest', hmore, hn, hsse⟩ := ih hmid
    rw [List.append_assoc] at hus
    exact ⟨s' :: ss', rest', .moreStatements hu hus hs hmore, hn,
      by rw [List.map_cons, List.map_cons, hse, hsse]⟩

theorem recovers_statements (hss : ∀ s ∈ ss, Role.statement.Recovered n s)
    (hts : Spells ts (wordsOfStatements ss)) (hrest : Barrier rest) :
    ∃ ss' rest', Derives .greedy .statements n (ts ++ rest) rest' (.nodes ss') ∧
      Newlines rest' rest ∧ ss'.map erase = ss.map erase := by
  cases ss with
  | nil =>
    obtain rfl := spells_nil hts
    exact ⟨[], rest, .noStatements, .nil, rfl⟩
  | cons s ss =>
    obtain ⟨vs, ws, rfl, hvs, hws⟩ := spells_append hts
    have hmore {us} (hus : Newlines us (ws ++ rest)) :=
      recovers_moreStatements (fun s hs => hss s (List.mem_cons_of_mem _ hs)) hws hrest hus
    have hbarrier : Barrier (ws ++ rest) := by
      obtain ⟨_, _, hmore, hn, _⟩ := hmore .nil
      exact hmore.barrier_moreStatements (hn.barrier hrest)
    obtain ⟨s', mid, hs, hmid, hse⟩ := hss s List.mem_cons_self vs (ws ++ rest) hvs hbarrier
    obtain ⟨ss', rest', hmore, hn, hsse⟩ := hmore hmid
    rw [List.append_assoc]
    exact ⟨s' :: ss', rest', .statements hs hmore, hn,
      by rw [List.map_cons, List.map_cons, hse, hsse]⟩

theorem recovered_block (hss : ∀ s ∈ ss, Role.statement.Recovered n s) :
    Role.block.Recovered n (.block ss p q) := by
  intro ts rest hts
  obtain ⟨t, us, rfl, ht, h₁⟩ := spells_cons hts
  obtain ⟨vs, u, hcat, hvs, hu⟩ := spells_concat h₁
  have hu := Token.is_of_word hu
  have hbarrier : Barrier (u :: rest) := barrier_of_is hu (by decide)
  obtain ⟨ss', mid, hd, hmid, heq⟩ := recovers_statements hss hvs hbarrier
  rw [List.cons_append, hcat]
  apply Recovers.of_derives (.block (Token.is_of_word ht) .nil hd hmid hu)
  rw [erase_block, erase_block, heq]

/-! ## Bodies -/

theorem recovered_statementBody (hwords : Word.ofBody e e.words = .operator ":" :: e.words)
    (h : Role.jump.Recovered n e) : Role.body.Recovered n e := by
  intro ts rest hts hrest
  rw [hwords] at hts
  obtain ⟨t, us, rfl, ht, hus⟩ := spells_cons hts
  obtain ⟨e', rest', hd, hn, heq⟩ := h us rest hus hrest
  exact ⟨e', rest', .statementBody (Token.is_of_word ht) hd, hn, heq⟩

theorem recovered_expressionBody
    (hwords : Word.ofBody e e.words = .operator ":" :: Word.enclose e.words)
    (h : Role.expression.Recovered n e) : Role.body.Recovered n e := by
  intro ts rest hts hrest
  rw [hwords] at hts
  obtain ⟨t, us, rfl, ht, hus⟩ := spells_cons hts
  obtain ⟨e', hd, heq⟩ := recovers_enclosed h hus hrest
  exact .of_derives (.statementBody (Token.is_of_word ht) (.evaluate hd)) heq

theorem recovered_blockBody (hwords : Word.ofBody e e.words = e.words)
    (h : Role.block.Recovered n e) : Role.body.Recovered n e := by
  intro ts rest hts _
  rw [hwords] at hts
  obtain ⟨e', rest', hd, hn, heq⟩ := h ts rest hts
  exact ⟨e', rest', .blockBody hd, hn, heq⟩

/-- A body stands behind its own colon or bracket. -/
theorem barrier_of_recovers {e : Node} (h : Recovers .body n ts rest e) : Barrier ts := by
  obtain ⟨_, _, hd, _, _⟩ := h
  exact hd.barrier_body

end

/-! ## Conditionals, loops and functions -/

section

variable {n : Nesting} {t : Token} {ts us rest : List Token} {a b c e : Node} {es : List Node}
  {o : Option Node} {cases : List (Node × Node)} {p q : Position}

theorem quiet_of_keyword {s : String} (ht : t.word = .keyword s) (hs : s = "elif" ∨ s = "else") :
    Quiet (t :: ts) := by
  apply quiet_of_is (Token.is_of_word ht)
  rcases hs with rfl | rfl <;> decide

theorem quiet_of_else (hts : Spells ts (wordsOfElse o)) (hrest : Barrier rest) :
    Quiet (ts ++ rest) := by
  cases o with
  | none =>
    obtain rfl := spells_nil hts
    exact hrest.quiet
  | some e =>
    obtain ⟨t, us, rfl, ht, _⟩ := spells_cons hts
    exact quiet_of_keyword ht (.inr rfl)

theorem quiet_of_clauses (hts : Spells ts (wordsOfCases "elif" cases ++ wordsOfElse o))
    (hrest : Barrier rest) : Quiet (ts ++ rest) := by
  cases cases with
  | nil => exact quiet_of_else hts hrest
  | cons g cases =>
    obtain ⟨t, us, rfl, ht, _⟩ := spells_cons hts
    exact quiet_of_keyword ht (.inl rfl)

theorem recovers_else (ho : ∀ e ∈ o, Role.body.Recovered n e) (hts : Spells ts (wordsOfElse o))
    (hrest : Barrier rest) (hus : Newlines us (ts ++ rest)) :
    ∃ o' rest', Derives .greedy .clauses n us rest' (.clauses [] o') ∧ Newlines rest' rest ∧
      o'.map erase = o.map erase := by
  cases o with
  | none =>
    obtain rfl := spells_nil hts
    exact ⟨none, us, .endClauses fun _ => hus.barrier hrest .clauses, hus, rfl⟩
  | some e =>
    obtain ⟨t, vs, rfl, ht, hvs⟩ := spells_cons hts
    obtain ⟨e', rest', hd, hn, heq⟩ := ho e rfl vs rest hvs hrest.quiet
    exact ⟨some e', rest', .otherwise hus (Token.is_of_word ht) hd, hn,
      by rw [Option.map_some, Option.map_some, heq]⟩

theorem recovers_clauses (hc : ∀ g ∈ cases, Role.expression.Recovered n g.1)
    (hb : ∀ g ∈ cases, Role.body.Recovered n g.2) (ho : ∀ e ∈ o, Role.body.Recovered n e)
    (hts : Spells ts (wordsOfCases "elif" cases ++ wordsOfElse o)) (hrest : Barrier rest)
    (hus : Newlines us (ts ++ rest)) :
    ∃ cases' o' rest', Derives .greedy .clauses n us rest' (.clauses cases' o') ∧
      Newlines rest' rest ∧ cases'.map (Prod.map erase erase) = cases.map (Prod.map erase erase) ∧
      o'.map erase = o.map erase := by
  induction cases generalizing ts us with
  | nil =>
    obtain ⟨o', rest', hd, hn, heq⟩ := recovers_else ho hts hrest hus
    exact ⟨[], o', rest', hd, hn, rfl, heq⟩
  | cons g cases ih =>
    obtain ⟨c, b⟩ := g
    rw [wordsOfCases, List.cons_append, List.append_assoc, List.append_assoc] at hts
    obtain ⟨t, _, rfl, ht, h₁⟩ := spells_cons hts
    obtain ⟨vs, _, rfl, hvs, h₂⟩ := spells_append h₁
    obtain ⟨ws, xs, rfl, hws, hxs⟩ := spells_append h₂
    simp only [List.append_assoc, List.cons_append] at hus
    have hbody := hb _ List.mem_cons_self ws (xs ++ rest) hws (quiet_of_clauses hxs hrest)
    obtain ⟨c', hc', hce⟩ :=
      recovers_enclosed (hc _ List.mem_cons_self) hvs (barrier_of_recovers hbody).quiet
    obtain ⟨b', mid, hb', hmid, hbe⟩ := hbody
    obtain ⟨cases', o', rest', hd, hn, hcases, heq⟩ :=
      ih (fun g hg => hc g (List.mem_cons_of_mem _ hg)) (fun g hg => hb g (List.mem_cons_of_mem _ hg))
        hxs hmid
    exact ⟨(c', b') :: cases', o', rest', .elseIf hus (Token.is_of_word ht) hc' hb' hd, hn,
      by simp [hcases, hce, hbe], heq⟩

theorem recovered_conditional (hc : Role.expression.Recovered n c) (hb : Role.body.Recovered n b)
    (hcs : ∀ g ∈ cases, Role.expression.Recovered n g.1)
    (hbs : ∀ g ∈ cases, Role.body.Recovered n g.2) (ho : ∀ e ∈ o, Role.body.Recovered n e) :
    Role.expression.Recovered n (.conditional ((c, b) :: cases) o p q) := by
  intro ts rest hts hrest
  rw [words, wordsOfCases, List.cons_append, List.append_assoc, List.append_assoc] at hts
  obtain ⟨t, _, rfl, ht, h₁⟩ := spells_cons hts
  obtain ⟨vs, _, rfl, hvs, h₂⟩ := spells_append h₁
  obtain ⟨ws, xs, rfl, hws, hxs⟩ := spells_append h₂
  have hbody := hb ws (xs ++ rest) hws (quiet_of_clauses hxs hrest)
  obtain ⟨c', hc', hce⟩ := recovers_enclosed hc hvs (barrier_of_recovers hbody).quiet
  obtain ⟨b', mid, hb', hmid, hbe⟩ := hbody
  obtain ⟨cases', o', rest', hd, hn, hcases, hoe⟩ := recovers_clauses hcs hbs ho hxs hrest hmid
  simp only [List.append_assoc, List.cons_append]
  apply Recovers.expression_of_primary _ hrest
  refine ⟨_, rest', .conditional (Token.is_of_word ht) hc' hb' hd, hn, ?_⟩
  rw [erase_conditional, erase_conditional, List.map_cons, List.map_cons, hcases, hoe, Prod.map,
    hce, hbe, Prod.map]

theorem recovers_step (ho : ∀ e ∈ o, Role.expression.Recovered n e)
    (hts : Spells ts (wordsBehind (.keyword "by") o)) (hrest : Barrier rest) :
    ∃ o', Derives .greedy .step n (ts ++ rest) rest (.optional o') ∧ o'.map erase = o.map erase := by
  cases o with
  | none =>
    obtain rfl := spells_nil hts
    exact ⟨none, .noStep, rfl⟩
  | some e =>
    obtain ⟨t, us, rfl, ht, hus⟩ := spells_cons hts
    obtain ⟨e', hd, heq⟩ := recovers_enclosed (ho e rfl) hus hrest.quiet
    exact ⟨some e', .step (Token.is_of_word ht) hd, by rw [Option.map_some, Option.map_some, heq]⟩

theorem recovered_forLoop (ht : t.kind = .identifier) (ha : Role.expression.Recovered n a)
    (hb : Role.expression.Recovered n b) (ho : ∀ e ∈ o, Role.expression.Recovered n e)
    (he : Role.body.Recovered n.loopBody e) :
    Role.expression.Recovered n (.forLoop t a b o e p q) := by
  intro ts rest hts hrest
  obtain ⟨start, _, rfl, hstart, h₁⟩ := spells_cons hts
  obtain ⟨name, _, rfl, hname, h₂⟩ := spells_cons h₁
  obtain ⟨u, _, rfl, hu, h₃⟩ := spells_cons h₂
  obtain ⟨us, _, rfl, hus, h₄⟩ := spells_append h₃
  obtain ⟨v, _, rfl, hv, h₅⟩ := spells_cons h₄
  obtain ⟨vs, _, rfl, hvs, h₆⟩ := spells_append h₅
  obtain ⟨ws, xs, rfl, hws, hxs⟩ := spells_append h₆
  have hv := Token.is_of_word hv
  have hkind := (Token.kind_of_word hname).trans ht
  have hbody := he xs rest hxs hrest.quiet
  obtain ⟨o', ho', hoe⟩ := recovers_step ho hws (barrier_of_recovers hbody)
  have hlast : Barrier (ws ++ (xs ++ rest)) := ho'.barrier_step (barrier_of_recovers hbody)
  obtain ⟨b', hb', hbe⟩ := recovers_enclosed hb hvs hlast.quiet
  have hcolon : Barrier (v :: (vs ++ (ws ++ (xs ++ rest)))) := barrier_of_is hv (by decide)
  obtain ⟨a', ha', hae⟩ := recovers_enclosed ha hus hcolon.quiet
  obtain ⟨e', rest', he', hn, hee⟩ := hbody
  simp only [List.append_assoc, List.cons_append]
  apply Recovers.expression_of_primary _ hrest
  refine ⟨_, rest', .forLoop (Token.is_of_word hstart) hkind (Token.is_of_word hu) ha' (.inl hv)
    hb' ho' he', hn, ?_⟩
  rw [erase_forLoop, erase_forLoop, hae, hbe, hoe, hee, Token.erase_of_word hname]

theorem recovered_eachLoop (ht : t.kind = .identifier) (ha : Role.expression.Recovered n a)
    (he : Role.body.Recovered n.loopBody e) :
    Role.expression.Recovered n (.eachLoop t a e p q) := by
  intro ts rest hts hrest
  obtain ⟨start, _, rfl, hstart, h₁⟩ := spells_cons hts
  obtain ⟨name, _, rfl, hname, h₂⟩ := spells_cons h₁
  obtain ⟨u, _, rfl, hu, h₃⟩ := spells_cons h₂
  obtain ⟨us, vs, rfl, hus, hvs⟩ := spells_append h₃
  have hkind := (Token.kind_of_word hname).trans ht
  have hbody := he vs rest hvs hrest.quiet
  obtain ⟨a', ha', hae⟩ := recovers_enclosed ha hus (barrier_of_recovers hbody).quiet
  obtain ⟨e', rest', he', hn, hee⟩ := hbody
  simp only [List.append_assoc, List.cons_append]
  apply Recovers.expression_of_primary _ hrest
  refine ⟨_, rest', .eachLoop (Token.is_of_word hstart) hkind (Token.is_of_word hu) ha' he', hn, ?_⟩
  rw [erase_eachLoop, erase_eachLoop, hae, hee, Token.erase_of_word hname]

theorem recovered_whileLoop (hc : Role.expression.Recovered n c)
    (he : Role.body.Recovered n.loopBody e) :
    Role.expression.Recovered n (.whileLoop c e p q) := by
  intro ts rest hts hrest
  obtain ⟨start, _, rfl, hstart, h₁⟩ := spells_cons hts
  obtain ⟨us, vs, rfl, hus, hvs⟩ := spells_append h₁
  have hbody := he vs rest hvs hrest.quiet
  obtain ⟨c', hc', hce⟩ := recovers_enclosed hc hus (barrier_of_recovers hbody).quiet
  obtain ⟨e', rest', he', hn, hee⟩ := hbody
  simp only [List.append_assoc, List.cons_append]
  apply Recovers.expression_of_primary _ hrest
  refine ⟨_, rest', .whileLoop (Token.is_of_word hstart) hc' he', hn, ?_⟩
  rw [erase_whileLoop, erase_whileLoop, hce, hee]

end

section

variable {n : Nesting} {ts rest : List Token} {e : Node} {name : Option Token}
  {params : List Token} {p q : Position}

theorem recovers_name (hname : ∀ t ∈ name, t.kind = .identifier)
    (hts : Spells ts (name.map Token.word).toList) :
    ∃ name', Named (ts ++ rest) rest name' ∧ name'.map Token.erase = name.map Token.erase := by
  cases name with
  | none =>
    obtain rfl := spells_nil hts
    exact ⟨none, .none, rfl⟩
  | some t =>
    obtain ⟨u, rfl, hu⟩ := spells_singleton hts
    refine ⟨some u, .some ((Token.kind_of_word hu).trans (hname t rfl)), ?_⟩
    rw [Option.map_some, Option.map_some, Token.erase_of_word hu]

theorem recovers_moreParameters (hparams : ∀ t ∈ params, t.kind = .identifier)
    (hts : Spells ts (params.flatMap fun u => [.bracket ",", u.word])) :
    ∃ params', MoreParameters (ts ++ rest) rest params' ∧
      params'.map Token.erase = params.map Token.erase := by
  induction params generalizing ts with
  | nil =>
    obtain rfl := spells_nil hts
    exact ⟨[], .nil, rfl⟩
  | cons t params ih =>
    obtain ⟨comma, _, rfl, hcomma, h₁⟩ := spells_cons hts
    obtain ⟨u, us, rfl, hu, hus⟩ := spells_cons h₁
    obtain ⟨params', hmore, heq⟩ := ih (fun t ht => hparams t (List.mem_cons_of_mem _ ht)) hus
    have hkind := (Token.kind_of_word hu).trans (hparams t List.mem_cons_self)
    refine ⟨u :: params', .cons (Token.is_of_word hcomma) .nil hkind .nil hmore, ?_⟩
    rw [List.map_cons, List.map_cons, heq, Token.erase_of_word hu]

theorem recovers_parameters (hparams : ∀ t ∈ params, t.kind = .identifier)
    (hts : Spells ts (Word.parameters params)) :
    ∃ params', Parameters (ts ++ rest) rest params' ∧
      params'.map Token.erase = params.map Token.erase := by
  cases params with
  | nil =>
    obtain rfl := spells_nil hts
    exact ⟨[], .nil .nil, rfl⟩
  | cons t params =>
    obtain ⟨u, us, rfl, hu, hus⟩ := spells_cons hts
    obtain ⟨params', hmore, heq⟩ :=
      recovers_moreParameters (fun t ht => hparams t (List.mem_cons_of_mem _ ht)) hus
    have hkind := (Token.kind_of_word hu).trans (hparams t List.mem_cons_self)
    refine ⟨u :: params', .cons .nil hkind .nil hmore, ?_⟩
    rw [List.map_cons, List.map_cons, heq, Token.erase_of_word hu]

theorem recovered_functionBlock (hname : ∀ t ∈ name, t.kind = .identifier)
    (hparams : ∀ t ∈ params, t.kind = .identifier) (he : Role.block.Recovered .functionBody e) :
    Role.expression.Recovered n (.function name params e false p q) := by
  intro ts rest hts hrest
  obtain ⟨start, _, rfl, hstart, h₁⟩ := spells_cons hts
  obtain ⟨us, _, rfl, hus, h₂⟩ := spells_append h₁
  obtain ⟨u, _, rfl, hu, h₃⟩ := spells_cons h₂
  obtain ⟨vs, _, rfl, hvs, h₄⟩ := spells_append h₃
  obtain ⟨v, ws, rfl, hv, hws⟩ := spells_cons h₄
  obtain ⟨name', hname', hne⟩ := recovers_name hname hus
  obtain ⟨params', hparams', hpe⟩ := recovers_parameters hparams hvs
  obtain ⟨e', rest', he', hn, hee⟩ := he ws rest hws
  simp only [List.append_assoc, List.cons_append]
  apply Recovers.expression_of_primary _ hrest
  refine ⟨_, rest', .functionBlock (Token.is_of_word hstart) hname' (Token.is_of_word hu) hparams'
    (Token.is_of_word hv) he', hn, ?_⟩
  rw [erase_function, erase_function, hne, hpe, hee]

theorem recovered_functionExpression (hname : ∀ t ∈ name, t.kind = .identifier)
    (hparams : ∀ t ∈ params, t.kind = .identifier)
    (he : Role.expression.Recovered .functionBody e) :
    Role.expression.Recovered n (.function name params e true p q) := by
  intro ts rest hts hrest
  obtain ⟨start, _, rfl, hstart, h₁⟩ := spells_cons hts
  obtain ⟨us, _, rfl, hus, h₂⟩ := spells_append h₁
  obtain ⟨u, _, rfl, hu, h₃⟩ := spells_cons h₂
  obtain ⟨vs, _, rfl, hvs, h₄⟩ := spells_append h₃
  obtain ⟨v, _, rfl, hv, h₅⟩ := spells_cons h₄
  obtain ⟨w, ws, rfl, hw, hws⟩ := spells_cons h₅
  obtain ⟨name', hname', hne⟩ := recovers_name hname hus
  obtain ⟨params', hparams', hpe⟩ := recovers_parameters hparams hvs
  obtain ⟨e', he', hee⟩ := recovers_enclosed he hws hrest.quiet
  have hgreedy : Reading.within .greedy n = .greedy := by simp [Reading.within]
  simp only [List.append_assoc, List.cons_append]
  apply Recovers.expression_of_primary _ hrest
  apply Recovers.of_derives (.functionExpression (Token.is_of_word hstart) hname'
    (Token.is_of_word hu) hparams' (Token.is_of_word hv) (Token.is_of_word hw) (hgreedy ▸ he'))
  rw [erase_function, erase_function, hne, hpe, hee]

end

/-! ## Whole programs -/

theorem WellFormed.recovered {role : Role} {n : Nesting} {e : Node} (h : WellFormed role n e) :
    role.Recovered n e := by
  induction h with
  | @number n t ht =>
    exact recovered_literal rfl erase_number fun u rest hu =>
      .number ((Token.kind_of_word hu).trans ht)
  | @text n t ht =>
    exact recovered_literal rfl erase_text fun u rest hu => .text ((Token.kind_of_word hu).trans ht)
  | @null n t ht =>
    exact recovered_literal rfl erase_null fun u rest hu => .null (by rwa [Token.is_eq_of_word hu])
  | @lookup n t ht =>
    exact recovered_literal rfl erase_lookup fun u rest hu =>
      .lookup ((Token.kind_of_word hu).trans ht)
  | list _ ih => exact recovered_list ih
  | ternary _ _ _ hc ha hb => exact recovered_ternary hc ha hb
  | binary ℓ hop _ _ ha hb => exact recovered_binary hop ha hb
  | unary hop _ ih => exact recovered_unary hop ih
  | assign ht _ ih => exact recovered_assign ht ih
  | index _ _ _ ha hb ho => exact recovered_index ha hb ho
  | assignIndex ht _ _ ha he => exact recovered_assignIndex ht ha he
  | conditional _ _ _ _ _ hc hb hcs hbs ho => exact recovered_conditional hc hb hcs hbs ho
  | forLoop ht _ _ _ _ ha hb ho he => exact recovered_forLoop ht ha hb ho he
  | eachLoop ht _ _ ha he => exact recovered_eachLoop ht ha he
  | whileLoop _ _ hc he => exact recovered_whileLoop hc he
  | functionBlock hname hparams _ ih => exact recovered_functionBlock hname hparams ih
  | functionExpression hname hparams _ ih => exact recovered_functionExpression hname hparams ih
  | call _ _ he hes => exact recovered_call he hes
  | breakLoop ht hn => exact recovered_breakLoop ht hn
  | continueLoop ht hn => exact recovered_continueLoop ht hn
  | giveBack hn _ ih => exact recovered_giveBack hn ih
  | jumpStatement _ ih => exact recovered_jumpStatement ih
  | evaluate _ ih => exact recovered_evaluate ih
  | jumpBody h ih =>
    refine recovered_statementBody ?_ ih
    cases h <;> rfl
  | expressionBody h ih =>
    refine recovered_expressionBody ?_ ih
    cases h <;> rfl
  | blockBody h ih =>
    refine recovered_blockBody ?_ ih
    cases h
    rfl
  | block _ ih => exact recovered_block ih

/-- The words of a well-formed program are its own again, unless they are nested too deep. -/
theorem ofTokens_programWords {program : Node} {s : TokenStream} (heof : s.eof.kind = .eof)
    (hprogram : WellFormed .block .program program)
    (hwords : Spells s.tokens program.programWords) (depth : Nat) :
    (∃ e, Node.ofTokens depth s = .ok e ∧ e.erase = program.erase) ∨
      depth < 2 * s.tokens.length ∧
        Node.TooDeep (Node.ofTokens depth s) := by
  cases hprogram with
  | @block _ ss p q hss =>
    obtain ⟨ss', rest, hd, hn, heq⟩ :=
      recovers_statements (fun s hs => (hss s hs).recovered) hwords barrier_nil
    rw [List.append_nil] at hd
    have hprogram : Grammar.Program .greedy s (.block ss' (s.tokens.headD s.eof).start s.eof.stop) :=
      .mk .nil hd hn
    rcases Parser.ofTokens_of_runs (Parser.runs_program depth heof hprogram) with h | h
    · refine .inl ⟨_, h, ?_⟩
      rw [erase_block, erase_block, heq]
    · exact .inr h

/-- A loop over a list that contains a function with a `return` before an `else`. -/
theorem ofTokens_programWords_loop :
    let p : Position := ⟨"f", 1, 1, 0⟩
    let word (kind : TokenKind) (s : String) : Token := ⟨kind, .text s, p, p⟩
    let a := word .identifier "a"
    let choice : Node := .conditional [(.lookup a, .giveBack none p p)]
      (some (.index (.lookup a) (.lookup a) none p)) p p
    let g : Node := .function none [a] (.block [choice] p p) false p p
    let program : Node := .block [.eachLoop a (.list [g] p p) (.breakLoop (word .keyword "break")) p p,
      .assignIndex a (.lookup a) (.lookup a)] p p
    let s : TokenStream := ⟨program.programWords.map fun w => ⟨w.1, w.2, p, p⟩, ⟨.eof, .null, p, p⟩⟩
    s.eof.kind = .eof ∧ WellFormed .block .program program ∧ Spells s.tokens program.programWords ∧
      ((∃ e, Node.ofTokens 200 s = .ok e ∧ e.erase = program.erase) ∨
        200 < 2 * s.tokens.length ∧
          Node.TooDeep (Node.ofTokens 200 s)) := by
  intro p word a choice g program s
  have ha {n} : WellFormed .expression n (.lookup a) := .lookup rfl
  have hchoice : WellFormed .expression .functionBody choice := by
    apply WellFormed.conditional ha (.jumpBody (.giveBack rfl (by simp))) (by simp) (by simp)
    rintro _ ⟨⟩
    exact .expressionBody (.index ha ha (by simp))
  have hg : WellFormed .expression .program g := by
    apply WellFormed.functionBlock (by simp) (by simp [a, word])
    apply WellFormed.block
    rintro _ (_ | ⟨_, ⟨⟩⟩)
    exact .evaluate hchoice
  have hloop : WellFormed .expression .program
      (.eachLoop a (.list [g] p p) (.breakLoop (word .keyword "break")) p p) := by
    apply WellFormed.eachLoop rfl (.list _) (.jumpBody (.breakLoop (by decide) rfl))
    rintro _ (_ | ⟨_, ⟨⟩⟩)
    exact hg
  have hprogram : WellFormed .block .program program := by
    apply WellFormed.block
    rintro _ (_ | ⟨_, _ | ⟨_, ⟨⟩⟩⟩)
    · exact .evaluate hloop
    · exact .evaluate (.assignIndex rfl ha ha)
  have hwords : Spells s.tokens program.programWords := by
    rw [Spells, List.map_map]
    exact List.map_id _
  exact ⟨rfl, hprogram, hwords, ofTokens_programWords rfl hprogram hwords 200⟩

end Node

end Lumen
