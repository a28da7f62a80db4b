import Lumen.Proofs.Grammar.Brackets
import Lumen.Proofs.Session
import Lumen.Proofs.Token.Join
import Lumen.Shell

/-!
# What the shell waits for

The shell counts brackets before it has a program read. A text that is a program closes each bracket
that it opens, the last one first, so the shell runs it as soon as it has it.
-/

namespace Lumen

namespace TokenStream

variable {s : TokenStream}

theorem openBrackets_of_unclosed {opened : List Token} (h : unclosed [] s.tokens = some opened) :
    s.openBrackets = opened.length := by
  rw [length_of_unclosed h s.eof, List.length_nil]
  exact (Int.zero_add _).symm

/-- In front of each token of a text without open brackets, the brackets that are still open are
known, and a closing bracket closes the last one. -/
theorem openBrackets_before (h : unclosed [] s.tokens = some []) {before after : List Token}
    {t : Token} (htokens : s.tokens = before ++ t :: after) :
    ∃ opened, unclosed [] before = some opened ∧
      (TokenStream.mk before s.eof).openBrackets = opened.length ∧
      (t.isClosing → ∃ u outer, opened = u :: outer ∧ t.closes u) := by
  rw [htokens] at h
  obtain ⟨opened, hbefore, hcloses⟩ := unclosed_before h
  exact ⟨opened, hbefore, openBrackets_of_unclosed hbefore, hcloses⟩

/-- A line end behind a text opens and closes nothing. -/
theorem openBrackets_lineEnd {source file : String} (h : ofSource source file = .ok s) :
    Lumen.openBrackets (source ++ "\n") = s.openBrackets := by
  obtain ⟨q, hs, heof⟩ := scans_of_ofSource h
  have hend : ofSource (source ++ "\n") file =
      .ok (s.join ⟨[], Token.make .eof .null q.nextLine none⟩) := by
    have htoList : (source ++ "\n").toList = source.toList ++ '\n' :: [] := by simp
    rw [ofSource_eq_map, htoList, scan_join hs, scan]
    simp only [Except.map, join, heof]
    rfl
  rw [openBrackets_eq hend, openBrackets_join]
  exact Int.add_zero _

end TokenStream

theorem Node.unclosed_of_ofSource {limits : Limits} {source file : String} {program : Node}
    (h : Node.ofSource limits source file = .ok program) :
    ∃ s, TokenStream.ofSource source file = .ok s ∧ unclosed [] s.tokens = some [] := by
  obtain ⟨ts, q, ss, _, _, hs, hss, -⟩ := Node.statements_of_ofSource h
  refine ⟨⟨ts, Token.make .eof .null q none⟩, ?_, hss.nested []⟩
  rw [TokenStream.ofSource_eq_map, hs.scan_eq]
  rfl

namespace Shell

/-- The shell collects nothing, or there are brackets open in what it collects; it asks for the next
line accordingly. -/
def Waits (s : Shell) : Prop :=
  s.pending = "" ∧ s.prompt = mainPrompt ∨
    0 < openBrackets s.pending ∧ s.prompt = continuationPrompt

/-- The shells that prompt in a session. -/
inductive Prompts (limits : Limits) : Shell → Prop where
  | initial (input : String) (verbosity : Nat) :
      Prompts limits ((initial input verbosity).print (intro ++ "\n"))
  | next {s s' s'' : Shell} {text : String} : Prompts limits s →
      (s.print s.prompt).nextLine = (text, s') → s'.line limits text = (.goOn, s'') →
      Prompts limits s''

variable {limits : Limits} {s : Shell}

theorem pending_echo (limits : Limits) (outcome : Outcome) (s : Shell) :
    (echo limits outcome s).2.pending = s.pending := by
  unfold echo
  repeat' split
  all_goals rfl

theorem prompt_echo (limits : Limits) (outcome : Outcome) (s : Shell) :
    (echo limits outcome s).2.prompt = s.prompt := by
  unfold echo
  repeat' split
  all_goals rfl

theorem Waits.nextLine (h : s.Waits) : s.nextLine.2.Waits := by
  unfold Shell.nextLine
  split
  · exact h
  · exact h

/-- Lines that leave no bracket open are run. -/
theorem programLine_of_closed {line : String}
    (h : openBrackets (s.pending ++ line ++ "\n") = 0) :
    s.programLine limits line =
      let r := s.machine.runSource limits (s.pending ++ line ++ "\n") fileName
      echo limits r.1 (idle r.2) := by
  refine if_neg ?_
  rw [h]
  exact Int.lt_irrefl 0

theorem waits_programLine (limits : Limits) (line : String) (s : Shell) :
    (programLine limits line s).2.Waits := by
  unfold programLine
  dsimp only
  split
  · next hopen => exact .inr ⟨hopen, rfl⟩
  · exact .inl ⟨pending_echo .., prompt_echo ..⟩

theorem Waits.behind (h : s.Waits) (limits : Limits) (text : String) :
    (s.line limits text).2.Waits := by
  unfold Shell.line
  dsimp only
  split
  · unfold emptyLine
    split
    · exact h
    · exact waits_programLine ..
  -- The commands leave what is collected as it is.
  · split
    · exact h
    · exact waits_programLine ..
    · exact h
    · exact h
    · exact waits_programLine ..

theorem Prompts.waits (h : s.Prompts limits) : s.Waits := by
  induction h with
  | initial => exact .inl ⟨rfl, rfl⟩
  | @next s s' s'' text _ hread hline ih =>
    have hprinted : (s.print s.prompt).Waits := ih
    have hs' := hprinted.nextLine
    rw [hread] at hs'
    have hs'' := hs'.behind limits text
    rw [hline] at hs''
    exact hs''

theorem mainPrompt_ne : mainPrompt ≠ continuationPrompt := by decide

/-- The shell asks for more lines only where brackets are open. -/
theorem Prompts.openBrackets_pos (h : s.Prompts limits) (hprompt : s.prompt = continuationPrompt) :
    0 < openBrackets s.pending := by
  rcases h.waits with ⟨-, hmain⟩ | ⟨hopen, -⟩
  · exact absurd (hmain.symm.trans hprompt) mainPrompt_ne
  · exact hopen

end Shell

/-- In a text that is a program each closing bracket closes the last one that is still open, and is
of its kind; no bracket is left open. So the shell runs the text once it has it, with or without the
last line end, and never asks for more lines of it. -/
theorem Shell.runs_ofSource {limits : Limits} {source file : String} {program : Node}
    (h : Node.ofSource limits source file = .ok program) :
    (∃ s, TokenStream.ofSource source file = .ok s ∧ unclosed [] s.tokens = some [] ∧
      ∀ before t after, s.tokens = before ++ t :: after →
        ∃ opened, unclosed [] before = some opened ∧
          (TokenStream.mk before s.eof).openBrackets = opened.length ∧
          (t.isClosing → ∃ u outer, opened = u :: outer ∧ t.closes u)) ∧
    openBrackets source = 0 ∧
    ∀ limits',
      (∀ (shell : Shell) line,
        shell.pending ++ line = source ∨ shell.pending ++ line ++ "\n" = source →
        let r := shell.machine.runSource limits' (shell.pending ++ line ++ "\n") fileName
        shell.programLine limits' line = echo limits' r.1 (idle r.2)) ∧
      ∀ shell : Shell, shell.Prompts limits' → shell.prompt = continuationPrompt →
        shell.pending ≠ source ∧ shell.pending ≠ source ++ "\n" := by
  obtain ⟨s, hs, hclosed⟩ := Node.unclosed_of_ofSource h
  have hzero : openBrackets source = 0 := by
    rw [TokenStream.openBrackets_eq hs]
    exact TokenStream.openBrackets_of_unclosed hclosed
  have hzero' : openBrackets (source ++ "\n") = 0 := by
    rw [TokenStream.openBrackets_lineEnd hs]
    exact TokenStream.openBrackets_of_unclosed hclosed
  refine ⟨⟨s, hs, hclosed, fun _ _ _ => TokenStream.openBrackets_before hclosed⟩, hzero,
    fun limits' => ⟨fun shell line hsource => ?_, fun shell hshell hprompt => ?_⟩⟩
  · apply programLine_of_closed
    rcases hsource with hsource | hsource
    · rw [hsource, hzero']
    · rw [hsource, hzero]
  · have hopen := hshell.openBrackets_pos hprompt
    constructor
    · intro hsource
      rw [hsource, hzero] at hopen
      exact Int.lt_irrefl 0 hopen
    · intro hsource
      rw [hsource, hzero'] at hopen
      exact Int.lt_irrefl 0 hopen

/-- A call on two lines, with a list as its argument. -/
theorem Shell.runs_ofSource_call :
    let limits : Limits := ⟨8, 4, 4⟩
    let shell : Shell := ⟨Machine.initial "" 0, "f([]\n", continuationPrompt⟩
    let r := shell.machine.runSource limits "f([]\n)\n" fileName
    (Node.ofSource limits "f([]\n)" fileName).toBool = true ∧
      openBrackets "f([]\n)" = 0 ∧
      shell.programLine limits ")" = echo limits r.1 (idle r.2) := by
  intro limits shell r
  have hparsed : (Node.ofSource limits "f([]\n)" fileName).toBool = true := by cbv
  cases hprogram : Node.ofSource limits "f([]\n)" fileName with
  | error d =>
    rw [hprogram] at hparsed
    cases hparsed
  | ok program =>
    obtain ⟨-, hzero, hrun⟩ := runs_ofSource hprogram
    exact ⟨rfl, hzero, (hrun limits).1 shell ")" (.inl rfl)⟩

end Lumen
