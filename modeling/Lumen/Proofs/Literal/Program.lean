import Lumen.Proofs.Literal.Scan
import Lumen.Proofs.Session

/-!
# Literals as programs

The words of a literal are parsed to the node that writes it. Numbers, texts and null stand for
themselves, a negative number is a sign in front of a number, and a list is the list of what its
elements are parsed to. So the text of a literal is a program of one statement.
-/

namespace Lumen

open Grammar
open Node (Spells spells_append spells_concat spells_cons spells_nil spells_singleton)
open Lumen.Parser (Nesting)

/-- The node has the literal as it is written. -/
inductive Literal.WrittenBy : Literal → Node → Prop where
  | null {t} : WrittenBy .null (.null t)
  | text {t s} : t.word = (.text, .text s) → WrittenBy (.text s) (.text t)
  | natural {t w n} : w.value = .ofNat n → t.word = natural n → WrittenBy (.number w) (.number t)
  | negative {t u w n} : w.value = .negSucc n → t.word = .operator "-" → u.word = natural (n + 1) →
      WrittenBy (.number w) (.unary t (.number u))
  | list {ls es p q} : List.Forall₂ WrittenBy ls es → WrittenBy (.list ls) (.list es p q)

namespace Literal

variable {n : Nesting} {ts rest : List Token} {ls : List Literal}

def Parsed (l : Literal) : Prop :=
  ∀ n ts rest, Spells ts l.words → Quiet rest →
    ∃ e, Derives .greedy .expression n (ts ++ rest) rest (.node e) ∧ l.WrittenBy e

theorem derives_of_primary {e : Node} (h : Derives .greedy .primary n ts rest (.node e))
    (hrest : Quiet rest) : Derives .greedy .expression n ts rest (.node e) :=
  (h.unary_of_primary (ends_of_quiet hrest (by simp))).expression_of_unary hrest

theorem parsed_null : null.Parsed := by
  intro n ts rest hts hrest
  obtain ⟨t, rfl, ht⟩ := spells_singleton hts
  exact ⟨_, derives_of_primary (.null (Token.is_of_word ht)) hrest, .null⟩

theorem parsed_text (s : String) : (text s).Parsed := by
  intro n ts rest hts hrest
  obtain ⟨t, rfl, ht⟩ := spells_singleton hts
  exact ⟨_, derives_of_primary (.text (Prod.mk.inj ht).1) hrest, .text ht⟩

theorem parsed_number (w : Whole) : (number w).Parsed := by
  intro n ts rest hts hrest
  rw [words] at hts
  cases hw : w.value with
  | ofNat k =>
    rw [hw] at hts
    obtain ⟨t, rfl, ht⟩ := spells_singleton hts
    exact ⟨_, derives_of_primary (.number (Prod.mk.inj ht).1) hrest, .natural hw ht⟩
  | negSucc k =>
    rw [hw] at hts
    obtain ⟨t, us, rfl, ht, hus⟩ := spells_cons hts
    obtain ⟨u, rfl, hu⟩ := spells_singleton hus
    have hends : Reading.greedy.Ends .suffixes rest := ends_of_quiet hrest (by simp)
    have hdigits : Derives .greedy .unary n (u :: rest) rest (.node (.number u)) :=
      Derives.unary_of_primary (.number (Prod.mk.inj hu).1) hends
    have hsign : isSign t := by
      rw [isSign, List.any_cons, Token.is_of_word ht, Bool.true_or]
    exact ⟨_, Derives.expression_of_unary (.sign hsign hdigits) hrest, .negative hw ht hu⟩

theorem parsed_moreElements (hls : ∀ l ∈ ls, l.Parsed) (hts : Spells ts (wordsOfMoreElements ls))
    (hrest : Barrier rest) :
    ∃ es, Derives .greedy .moreArguments n (ts ++ rest) rest (.nodes es) ∧
      List.Forall₂ WrittenBy ls es := by
  induction ls generalizing ts with
  | nil =>
    obtain rfl := spells_nil hts
    exact ⟨[], .lastArgument, .nil⟩
  | cons l ls ih =>
    obtain ⟨t, us, rfl, ht, hus⟩ := spells_cons hts
    obtain ⟨vs, vs', rfl, hvs, hvs'⟩ := spells_append hus
    obtain ⟨es, hmore, hes⟩ := ih (fun k hk => hls k (List.mem_cons_of_mem _ hk)) hvs'
    have hquiet := (hmore.barrier_moreArguments hrest).quiet
    obtain ⟨e, he, hwritten⟩ := hls l List.mem_cons_self n vs _ hvs hquiet
    refine ⟨e :: es, ?_, .cons hwritten hes⟩
    rw [List.cons_append, List.append_assoc]
    exact .moreArguments (Token.is_of_word ht) .nil he .nil hmore

theorem parsed_elements (hls : ∀ l ∈ ls, l.Parsed) (hts : Spells ts (wordsOfElements ls))
    (hrest : Barrier rest) :
    ∃ es, Derives .greedy .arguments n (ts ++ rest) rest (.nodes es) ∧
      List.Forall₂ WrittenBy ls es := by
  cases ls with
  | nil =>
    obtain rfl := spells_nil hts
    exact ⟨[], .noArguments .nil, .nil⟩
  | cons l ls =>
    obtain ⟨vs, vs', rfl, hvs, hvs'⟩ := spells_append hts
    obtain ⟨es, hmore, hes⟩ :=
      parsed_moreElements (n := n) (fun k hk => hls k (List.mem_cons_of_mem _ hk)) hvs' hrest
    have hquiet := (hmore.barrier_moreArguments hrest).quiet
    obtain ⟨e, he, hwritten⟩ := hls l List.mem_cons_self n vs _ hvs hquiet
    refine ⟨e :: es, ?_, .cons hwritten hes⟩
    rw [List.append_assoc]
    exact .arguments .nil he .nil hmore

theorem parsed (l : Literal) : l.Parsed := by
  induction l with
  | null => exact parsed_null
  | text s => exact parsed_text s
  | number w => exact parsed_number w
  | list ls ih =>
    intro n ts rest hts hrest
    obtain ⟨t, us, rfl, ht, hus⟩ := spells_cons hts
    obtain ⟨vs, u, hvs, helements, hu⟩ := spells_concat hus
    have hu := Token.is_of_word hu
    have hbarrier : Barrier (u :: rest) := barrier_of_is hu (by decide)
    obtain ⟨es, hd, hes⟩ := parsed_elements (n := n) ih helements hbarrier
    have hlist := Derives.list (Token.is_of_word ht) hd hu
    rw [← hvs, ← List.cons_append] at hlist
    exact ⟨_, derives_of_primary hlist hrest, .list hes⟩

/-- The program that the text of a literal is, unless that is nested too deep. -/
theorem ofSource_source (l : Literal) (limits : Limits) (file : String) :
    (∃ e p q, l.WrittenBy e ∧ Node.ofSource limits l.source file = .ok (.block [e] p q)) ∨
      limits.nesting < 2 * l.source.length ∧
        Node.TooDeep (Node.ofSource limits l.source file) := by
  obtain ⟨ts, q, hts, hs⟩ := l.scans_source file
  obtain ⟨e, he, hwritten⟩ := l.parsed .program ts [] hts barrier_nil.quiet
  have hlength := hs.length_le
  rw [String.length_toList] at hlength
  rw [List.append_nil] at he
  let s : TokenStream := ⟨ts, Token.make .eof .null q none⟩
  have hprogram : Program .greedy s (.block [e] (ts.headD s.eof).start s.eof.stop) :=
    .mk .nil (.statements (.evaluate he) .lastStatement) .nil
  rw [Node.ofSource_eq hs]
  have hruns := Parser.runs_program limits.nesting rfl hprogram
  rcases Parser.ofTokens_of_runs hruns with h | ⟨hdeep, h⟩
  · exact .inl ⟨e, _, _, hwritten, h⟩
  · exact .inr ⟨Nat.lt_of_lt_of_le hdeep (Nat.mul_le_mul_left 2 hlength), h⟩

end Literal

end Lumen
