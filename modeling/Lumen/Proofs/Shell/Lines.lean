import Lumen.Proofs.Eval.Places
import Lumen.Proofs.Parser.Places
import Lumen.Proofs.Shell

/-!
# What the shell does with a line

A line that leaves no bracket open is a command of the shell or a program. A program is run as it
stands; behind the word `exit` it is run with one blank where that word ends, which moves what
follows and changes nothing else.
-/

namespace Lumen

open Eval (places LogsAlike)
open TokenStream (Scans)

namespace Text

variable {s : String} {before behind : List Char}

theorem dropWhile_eq_self_of_prefix {p : Char → Bool} {xs ys : List Char} (h : xs <+: ys)
    (hys : ys.dropWhile p = ys) : xs.dropWhile p = xs := by
  cases xs with
  | nil => rfl
  | cons x xs =>
    obtain ⟨zs, rfl⟩ := h
    rw [List.cons_append, List.dropWhile_cons] at hys
    rw [List.dropWhile_cons]
    split at hys
    · have hshorter := (List.dropWhile_suffix p (l := xs ++ zs)).length_le
      rw [hys, List.length_cons] at hshorter
      omega
    · next hx => rw [if_neg hx]

/-- What is not changed by cutting has no blank at its end. -/
theorem reverse_dropWhile_of_trim (h : trim s = s) :
    s.toList.reverse.dropWhile isBlank = s.toList.reverse := by
  have hcut := congrArg String.toList h
  rw [trim, String.toList_ofList] at hcut
  have hfront := List.dropWhile_suffix isBlank (l := s.toList)
  have hback := List.dropWhile_suffix isBlank (l := (s.toList.dropWhile isBlank).reverse)
  have hlength := congrArg List.length hcut
  rw [List.length_reverse] at hlength
  have hle := hback.length_le
  rw [List.length_reverse] at hle
  rw [hfront.eq_of_length (le_antisymm hfront.length_le (hlength ▸ hle))] at hcut
  rw [← List.reverse_inj, hcut, List.reverse_reverse]

theorem trim_blank {c : Char} (hc : isBlank c) (cs : List Char) :
    trim (String.ofList (c :: cs)) = trim (String.ofList cs) := by
  rw [trim, trim, String.toList_ofList, String.toList_ofList, List.dropWhile_cons, if_pos hc]

/-- Of a part at the end of such a text only the front is cut, and not all of it. -/
theorem trim_behind (h : trim s = s) (hs : s.toList = before ++ behind) :
    trim (String.ofList behind) = String.ofList (behind.dropWhile isBlank) ∧
      (behind.dropWhile isBlank = [] → behind = []) := by
  have hback : ∀ ds, ds <:+ behind → ds.reverse.dropWhile isBlank = ds.reverse := by
    intro ds hds
    refine dropWhile_eq_self_of_prefix ?_ (reverse_dropWhile_of_trim h)
    rw [List.reverse_prefix, hs]
    exact hds.trans (List.suffix_append _ _)
  refine ⟨?_, fun hnil => ?_⟩
  · rw [trim, String.toList_ofList, hback _ (List.dropWhile_suffix _), List.reverse_reverse]
  · have hall := List.dropWhile_eq_nil_iff.mp hnil
    have hnone := hback _ List.suffix_rfl
    rw [List.dropWhile_eq_nil_iff.mpr fun c hc => hall c (List.mem_reverse.mp hc)] at hnone
    exact List.reverse_eq_nil_iff.mp hnone.symm

end Text

/-! ## The words of a line -/

namespace TokenStream

variable {p q : Position} {cs blanks : List Char} {ts : List Token} {c : Char}

/-- From any other place on there are the same words. -/
theorem Scans.anywhere (h : Scans p cs ts q) (p' : Position) :
    ∃ ts' q', Scans p' cs ts' q' ∧ SameWords ts ts' := by
  induction h generalizing p' with
  | nil => exact ⟨[], p', .nil, .nil⟩
  | @cons p c cs l taken rest ts q hread _ ih =>
    obtain ⟨ts', q', hts', hwords⟩ := ih (p'.pastAll taken)
    refine ⟨_, q', .cons hread hts', ?_⟩
    cases l with
    | skipped => exact hwords
    | mark kind value => exact .cons rfl hwords
    | word kind value => exact .cons rfl hwords

theorem Scans.behind_blanks (hblanks : ∀ c ∈ blanks, Text.isBlank c ∧ c ≠ '\n')
    (h : Scans p (blanks ++ cs) ts q) : ∃ p', Scans p' cs ts q := by
  induction blanks generalizing p with
  | nil => exact ⟨p, h⟩
  | cons c blanks ih =>
    have hc := hblanks c List.mem_cons_self
    rw [List.cons_append] at h
    cases h with
    | cons hread hrest =>
      cases (Lexeme.read_blank hc.1 hc.2 _).symm.trans hread
      exact ih (fun d hd => hblanks d (List.mem_cons_of_mem c hd)) hrest

/-- Behind a name the blanks may be exchanged for one, or one may be put where there are none. -/
theorem Scans.respace {name : List Char} (hname : Lexeme.IsName (c :: name))
    (hstop : (blanks ++ cs).head?.all (! Text.continuesName ·))
    (hblanks : ∀ c ∈ blanks, Text.isBlank c ∧ c ≠ '\n')
    (h : Scans p (c :: name ++ (blanks ++ cs)) ts q) :
    ∃ ts' q', Scans p (c :: name ++ ' ' :: cs) ts' q' ∧ SameWords ts ts' := by
  rw [List.cons_append] at h
  cases h with
  | cons hread hrest =>
    cases (Lexeme.read_name hname hstop).symm.trans hread
    obtain ⟨p', hbehind⟩ := hrest.behind_blanks hblanks
    obtain ⟨ts', q', hts', hwords⟩ := hbehind.anywhere ((p.pastAll (c :: name)).pastAll [' '])
    have hspace := Scans.cons (Lexeme.read_blank (by decide) (by decide) cs) hts'
    exact ⟨_, q', .cons (Lexeme.read_name hname rfl) hspace, .cons rfl hwords⟩

theorem Scans.lineEnd (h : Scans p cs ts q) :
    Scans p (cs ++ ['\n']) (ts ++ [Token.make .newline .null q none]) q.nextLine := h.newline .nil

theorem exists_closed (text file : String)
    (h : (ofSource text file).toOption.any (·.openBrackets ≤ 0)) :
    ∃ toks, ofSource text file = .ok toks ∧ toks.openBrackets ≤ 0 := by
  cases htoks : ofSource text file with
  | error d =>
    rw [htoks] at h
    cases h
  | ok toks =>
    rw [htoks] at h
    exact ⟨toks, rfl, of_decide_eq_true h⟩

end TokenStream

/-! ## Runs of the same words -/

theorem Payload.kind_eq_null {p : Payload} : p.kind = .null ↔ p = .null := by
  cases p <;> simp [kind]

namespace Machine

variable {source source' file : String} {p q : Position} {ts ts' : List Token}

/-- The two runs end in the same way but for places, in what a failure is reported with among
them. -/
inductive EndsAlike (verbosity : Nat) : Outcome → Outcome → Prop where
  | same {r r'} : (places verbosity).Outcomes r r' → EndsAlike verbosity r r'
  | failure {d d' : Diagnostic} : d.complaint = d'.complaint →
      EndsAlike verbosity (.failure d) (.failure d')

/-- Sources of the same words do the same to a machine but for places. -/
theorem runSource_words {s s' : TokenStream} (hs : TokenStream.ofSource source file = .ok s)
    (hs' : TokenStream.ofSource source' file = .ok s') (h : SameWords s.tokens s'.tokens)
    (heof : s.eof.erase = s'.eof.erase) (limits : Limits) (m : Machine) :
    EndsAlike m.verbosity (m.runSource limits source file).1 (m.runSource limits source' file).1 ∧
      (places m.verbosity).Machines (m.runSource limits source file).2
        (m.runSource limits source' file).2 := by
  have hm := Eval.machines_places m
  have hprogram :
      Node.Agree (Node.ofSource limits source file) (Node.ofSource limits source' file) := by
    rw [Node.ofSource, Node.ofSource, hs, hs']
    exact Node.agree_ofTokens h heof limits.nesting
  unfold runSource
  generalize Node.ofSource limits source file = r at hprogram ⊢
  generalize Node.ofSource limits source' file = r' at hprogram ⊢
  cases hprogram with
  | error hcomplaint => exact ⟨.failure hcomplaint, hm⟩
  | @ok n n' hn =>
    have htype : (Tree.ofNode n).typeName = (Tree.ofNode n').typeName := by
      have hname (n : Node) : (Tree.ofNode n).typeName = n.kind.name := by cases n <;> rfl
      rw [hname, hname, Tree.kind_eq_of_erase hn]
    obtain ⟨houtcomes, hfinal⟩ := Eval.Simulation.run id limits hm (.ofNode hn) htype trivial
    exact ⟨.same houtcomes, hfinal⟩

end Machine

namespace Shell

variable {limits : Limits} {s : Shell} {text source : String} {v : Nat}

def evaluated (limits : Limits) (source : String) (s : Shell) : Reply × Shell :=
  let r := s.machine.runSource limits source fileName
  echo limits r.1 (idle r.2)

/-- The two shells reply and go on alike, but for the places that values and functions have, and
those that a trace and the report of a failure show. -/
structure Alike (verbosity : Nat) (x x' : Reply × Shell) : Prop where
  reply : x.1 = x'.1
  pending : x.2.pending = x'.2.pending
  prompt : x.2.prompt = x'.2.prompt
  store : (places verbosity).Stores x.2.machine.store x'.2.machine.store
  input : x.2.machine.input = x'.2.machine.input
  log : LogsAlike verbosity x.2.machine.log x'.2.machine.log
  output : x.2.machine.output = x'.2.machine.output ∨
    ∃ (printed : String) (d d' : Diagnostic), d.complaint = d'.complaint ∧
      x.2.machine.output = printed ++ (d.render ++ Diagnostic.reset ++ "\n") ∧
      x'.2.machine.output = printed ++ (d'.render ++ Diagnostic.reset ++ "\n")

theorem alike_of_machines {m m' : Machine} {reply : Reply} (hm : (places v).Machines m m') :
    Alike v (reply, idle m) (reply, idle m') :=
  ⟨rfl, rfl, rfl, hm.store, hm.input_eq, hm.log, .inl hm.output_eq⟩

/-- What two alike shells print may be told apart where it is a report. -/
theorem alike_print {m m' : Machine} {t t' : String} (hm : (places v).Machines m m')
    (ht : t = t' ∨ ∃ d d' : Diagnostic, d.complaint = d'.complaint ∧
      t = d.render ++ Diagnostic.reset ++ "\n" ∧ t' = d'.render ++ Diagnostic.reset ++ "\n") :
    Alike v (.goOn, (idle m).print t) (.goOn, (idle m').print t') := by
  have houtput (t' : String) : m.output ++ t' = m'.output ++ t' := by rw [hm.output_eq]
  refine ⟨rfl, rfl, rfl, hm.store, hm.input_eq, hm.log, ?_⟩
  rcases ht with rfl | ⟨d, d', h, rfl, rfl⟩
  · exact .inl (houtput t)
  · exact .inr ⟨m.output, d, d', h, rfl, (houtput _).symm⟩

theorem echo_failure (d : Diagnostic) : echo limits (.failure d) s =
    (.goOn, s.print (d.render ++ Diagnostic.reset ++ "\n")) := rfl

theorem alike_failure {m m' : Machine} {d d' : Diagnostic} (hm : (places v).Machines m m')
    (h : d.complaint = d'.complaint) :
    Alike v (echo limits (.failure d) (idle m)) (echo limits (.failure d') (idle m')) := by
  rw [echo_failure, echo_failure]
  exact alike_print hm (.inr ⟨d, d', h, rfl, rfl⟩)

theorem echo_null {value : Value} (h : value.payload = .null) :
    echo limits (.value (some value)) s = (.goOn, s) := by
  unfold echo
  dsimp only
  rw [h]

theorem echo_value {value : Value} (h : value.payload ≠ .null) :
    echo limits (.value (some value)) s =
      match s.machine.store.text? .written limits.stack value with
      | .ok t => (.goOn, s.print (t ++ "\n"))
      | .error .tooDeep => (.exhausted, s)
      | .error (.fault f) => (.fault f, s) := by
  unfold echo
  dsimp only
  split
  · next hnull => exact (h hnull).elim
  · rfl

theorem echo_alike {r r' : Outcome} {m m' : Machine} (hr : Machine.EndsAlike v r r')
    (hm : (places v).Machines m m') :
    Alike v (echo limits r (idle m)) (echo limits r' (idle m')) := by
  cases hr with
  | failure h => exact alike_failure hm h
  | same houtcomes =>
    cases houtcomes with
    | failure => exact alike_failure hm rfl
    | exit => exact alike_of_machines hm
    | fault => exact alike_of_machines hm
    | exhausted => exact alike_of_machines hm
    | endless => exact alike_of_machines hm
    | value hv =>
      cases hv with
      | none => exact alike_of_machines hm
      | @some w w' hw =>
        have hnull : w.payload = .null ↔ w'.payload = .null := by
          rw [← Payload.kind_eq_null, ← Payload.kind_eq_null, hw.payload.kind_eq]
        by_cases h : w.payload = .null
        · rw [echo_null h, echo_null (hnull.mp h)]
          exact alike_of_machines hm
        · have htext : (idle m).machine.store.text? .written limits.stack w =
              (idle m').machine.store.text? .written limits.stack w' := hm.store.text?_eq id hw
          rw [echo_value h, echo_value (mt hnull.mpr h), ← htext]
          rcases (idle m).machine.store.text? .written limits.stack w with (_ | _) | t
          · exact alike_of_machines hm
          · exact alike_of_machines hm
          · exact alike_print hm (.inl rfl)

/-! ## Commands and programs -/

/-- The line is no command: its first word is none, or it is `exit` with one blank behind it. -/
def IsProgram (text : String) : Prop :=
  (text.toList.head? ≠ some '?' ∧ (splitCommand text).1 ∉ topics.map Prod.fst) ∨
    ∃ rest, text = "exit " ++ rest ∧ Text.trim rest = rest

theorem fst_echo_ne_leave (limits : Limits) (outcome : Outcome) (s : Shell) :
    (echo limits outcome s).1 ≠ .leave := by
  unfold echo
  repeat' split
  all_goals exact nofun

theorem fst_programLine_ne_leave (limits : Limits) (line : String) (s : Shell) :
    (programLine limits line s).1 ≠ .leave := by
  unfold programLine
  dsimp only
  split
  · exact nofun
  · exact fst_echo_ne_leave limits _ _

theorem programLine_evaluated (hpending : s.pending = "") (h : openBrackets (text ++ "\n") ≤ 0) :
    s.programLine limits text = s.evaluated limits (text ++ "\n") := by
  have hsource : s.pending ++ text ++ "\n" = text ++ "\n" := by rw [hpending, String.empty_append]
  unfold programLine
  rw [hsource]
  exact if_neg (Int.not_lt.mpr h)

theorem splitCommand_append {word behind : List Char} (hword : ∀ c ∈ word, isCommandChar c)
    (hbehind : behind.head?.all (! isCommandChar ·)) :
    splitCommand (String.ofList (word ++ behind)) =
      (String.ofList word, Text.trim (String.ofList behind)) := by
  have hstop : behind.takeWhile isCommandChar = [] ∧ behind.dropWhile isCommandChar = behind := by
    cases behind with
    | nil => exact ⟨rfl, rfl⟩
    | cons c cs =>
      have hc : isCommandChar c = false := by simpa using hbehind
      rw [List.takeWhile_cons, List.dropWhile_cons, hc]
      exact ⟨rfl, rfl⟩
  rw [splitCommand, String.toList_ofList]
  rw [List.takeWhile_append_of_pos hword, List.dropWhile_append_of_pos hword, hstop.1, hstop.2,
    List.append_nil]

/-- The word and what follows it, where blanks stood between them. -/
theorem splitCommand_behind (htrim : Text.trim text = text) :
    ∃ behind, text.toList = (splitCommand text).1.toList ++ behind ∧
      ((splitCommand text).2 = "" → behind = []) := by
  have htext := List.takeWhile_append_dropWhile (p := isCommandChar) (l := text.toList)
  obtain ⟨hcut, hall⟩ := Text.trim_behind htrim htext.symm
  refine ⟨text.toList.dropWhile isCommandChar, ?_, fun hnone => hall ?_⟩
  · rw [splitCommand, String.toList_ofList, htext]
  · have hrest := congrArg String.toList (hcut.symm.trans hnone)
    rwa [String.toList_ofList] at hrest

theorem splitCommand_exit (htrim : Text.trim text = text) :
    splitCommand text = ("exit", "") ↔ text = "exit" := by
  constructor
  · intro h
    obtain ⟨behind, htext, hnone⟩ := splitCommand_behind htrim
    rw [h] at htext hnone
    rw [hnone rfl, List.append_nil] at htext
    exact String.toList_inj.mp htext
  · rintro rfl
    decide

theorem expandHelp_eq (h : text.toList.head? ≠ some '?') : expandHelp text = text := by
  unfold expandHelp
  split
  · next hcs => exact (h (by rw [hcs]; rfl)).elim
  · rfl

/-- A question mark is a call for help. -/
theorem splitCommand_question (h : text.toList.head? = some '?') :
    (splitCommand (expandHelp text)).1 = "help" := by
  obtain ⟨cs, hcs⟩ := List.head?_eq_some_iff.mp h
  have hexpand : expandHelp text = String.ofList (['h', 'e', 'l', 'p'] ++ ' ' :: cs) := by
    have hexpand : expandHelp text = "help " ++ String.ofList cs := by
      unfold expandHelp
      rw [hcs]
      rfl
    apply String.toList_inj.mp
    rw [hexpand, String.toList_append, String.toList_ofList, String.toList_ofList]
    simp
  rw [hexpand, splitCommand_append (by simp [isCommandChar]) rfl]

section

variable (hne : text ≠ "") (htrim : Text.trim text = text)
include hne htrim

theorem line_help (h : (splitCommand (expandHelp text)).1 = "help") :
    ∃ topic, s.line limits text = (.goOn, s.print (helpText topic)) := by
  unfold line
  dsimp only
  rw [htrim, if_neg hne]
  generalize splitCommand (expandHelp text) = words at h ⊢
  obtain ⟨word, topic⟩ := words
  obtain rfl := h
  exact ⟨topic, rfl⟩

theorem line_program (hquestion : text.toList.head? ≠ some '?')
    (h : (splitCommand text).1 ∉ topics.map Prod.fst) :
    s.line limits text = s.programLine limits text := by
  unfold line
  dsimp only
  rw [htrim, if_neg hne, expandHelp_eq hquestion]
  split <;> simp_all [topics]

theorem line_exit {rest : String} (hquestion : text.toList.head? ≠ some '?')
    (h : splitCommand text = ("exit", rest)) (hrest : rest ≠ "") :
    s.line limits text = s.programLine limits ("exit " ++ rest) := by
  unfold line
  dsimp only
  rw [htrim, if_neg hne, expandHelp_eq hquestion]
  split <;> simp_all

/-- Only two lines end the session. -/
theorem fst_line_eq_leave :
    (s.line limits text).1 = .leave ↔ text = "exit" ∨ (splitCommand text).1 = "EOF" := by
  by_cases hquestion : text.toList.head? = some '?'
  · obtain ⟨cs, hcs⟩ := List.head?_eq_some_iff.mp hquestion
    have hword : (splitCommand text).1 ≠ "EOF" := by
      unfold splitCommand
      rewrite [hcs]
      exact (by decide : String.ofList [] ≠ "EOF")
    obtain ⟨topic, hhelp⟩ := line_help hne htrim (splitCommand_question hquestion)
    rw [hhelp]
    refine iff_of_false nofun (not_or.mpr ⟨?_, hword⟩)
    rintro rfl
    cases hcs
  · have hend (h : ∀ rest, splitCommand text ≠ ("EOF", rest)) : (splitCommand text).1 ≠ "EOF" :=
      fun hword => h _ (Prod.ext hword rfl)
    unfold line
    dsimp only
    rw [htrim, if_neg hne, expandHelp_eq hquestion, ← splitCommand_exit htrim]
    split <;> simp_all [fst_programLine_ne_leave]

end

/-- With one blank between the word `exit` and what follows there are the same words. -/
theorem ofSource_exit {toks : TokenStream} {c : Char} {rest : List Char}
    (htrim : Text.trim text = text) (htext : text.toList = "exit".toList ++ c :: rest)
    (hc : Text.continuesName c = false) (hline : '\n' ∉ text.toList)
    (h : TokenStream.ofSource text fileName = .ok toks) :
    ∃ t t', TokenStream.ofSource (text ++ "\n") fileName = .ok t ∧
      TokenStream.ofSource ("exit " ++ Text.trim (String.ofList (c :: rest)) ++ "\n") fileName =
        .ok t' ∧ SameWords t.tokens t'.tokens ∧ t.eof.erase = t'.eof.erase := by
  obtain ⟨q, hs, -⟩ := TokenStream.scans_of_ofSource h
  have hsplit := List.takeWhile_append_dropWhile (p := Text.isBlank) (l := c :: rest)
  have hblanks : ∀ d ∈ (c :: rest).takeWhile Text.isBlank, Text.isBlank d ∧ d ≠ '\n' := by
    refine fun d hd => ⟨List.mem_takeWhile_imp hd, ?_⟩
    rintro rfl
    refine hline ?_
    rw [htext]
    exact List.mem_append_right _ ((List.takeWhile_sublist _).subset hd)
  have hstop : ((c :: rest).takeWhile Text.isBlank ++ (c :: rest).dropWhile Text.isBlank).head?.all
      (! Text.continuesName ·) := by
    rw [hsplit, List.head?_cons, Option.all_some, hc]
    rfl
  have hname : Lexeme.IsName ['e', 'x', 'i', 't'] := ⟨by decide, List.all_eq_true.mp (by decide)⟩
  have hspaced : Scans (.first fileName) ('e' :: ['x', 'i', 't'] ++
      ((c :: rest).takeWhile Text.isBlank ++ (c :: rest).dropWhile Text.isBlank)) toks.tokens q := by
    rw [hsplit]
    rw [htext] at hs
    exact hs
  obtain ⟨ts', q', hs', hwords⟩ := hspaced.respace hname hstop hblanks
  have hsource : (text ++ "\n").toList = text.toList ++ ['\n'] := by simp
  have hsource' : ("exit " ++ Text.trim (String.ofList (c :: rest)) ++ "\n").toList =
      'e' :: ['x', 'i', 't'] ++ ' ' :: (c :: rest).dropWhile Text.isBlank ++ ['\n'] := by
    rw [(Text.trim_behind htrim htext).1]
    simp
  have hend := hs.lineEnd
  have hend' := hs'.lineEnd
  rw [← hsource] at hend
  rw [← hsource'] at hend'
  refine ⟨_, _, hend.ofSource_eq, hend'.ofSource_eq, ?_, rfl⟩
  rw [SameWords, List.map_append, List.map_append, hwords]
  rfl

/-- What follows the word `exit` runs behind one blank. -/
theorem line_exit_behind {c : Char} {rest : List Char} (hne : text ≠ "")
    (htrim : Text.trim text = text) (htext : text.toList = "exit".toList ++ c :: rest)
    (hc : isCommandChar c = false) :
    s.line limits text =
      s.programLine limits ("exit " ++ Text.trim (String.ofList (c :: rest))) := by
  have htext' : text = String.ofList (['e', 'x', 'i', 't'] ++ c :: rest) :=
    String.toList_inj.mp (by simpa using htext)
  have hsplit : splitCommand text = ("exit", Text.trim (String.ofList (c :: rest))) := by
    rw [htext', splitCommand_append (by simp [isCommandChar]) (by simpa using hc)]
  have hquestion : text.toList.head? ≠ some '?' := by
    rw [htext]
    exact nofun
  refine line_exit hne htrim hquestion hsplit fun hnone => ?_
  obtain ⟨hcut, hall⟩ := Text.trim_behind htrim htext
  rw [hcut] at hnone
  exact List.cons_ne_nil c rest (hall (String.ofList_eq_empty_iff.mp hnone))

/-- What a command word goes on with, a name goes on with. -/
theorem isCommandChar_of_continuesName {c : Char} (hc : Text.continuesName c = false) :
    isCommandChar c = false := by
  rw [Text.continuesName, Text.isLetterOrNumeral, Bool.or_eq_false_iff] at hc
  rw [isCommandChar, hc.2, Bool.or_false]
  split at hc
  · exact hc.1
  · next hlarge =>
    rw [Bool.eq_false_iff]
    intro hascii
    simp only [Char.isAlphanum, Char.isAlpha, Char.isUpper, Char.isLower, Char.isDigit,
      UInt32.le_iff_toNat_le, Bool.or_eq_true, Bool.and_eq_true, decide_eq_true_eq] at hascii
    have hcode : c.toNat = c.val.toNat := rfl
    have hz : ('z'.val).toNat = 122 := rfl
    have hZ : ('Z'.val).toNat = 90 := rfl
    have h9 : ('9'.val).toNat = 57 := rfl
    omega

/-- A program is run as it stands. -/
theorem line_of_isProgram (h : IsProgram text) (hne : text ≠ "") (htrim : Text.trim text = text) :
    s.line limits text = s.programLine limits text := by
  rcases h with ⟨hquestion, hword⟩ | ⟨rest, rfl, hcut⟩
  · exact line_program hne htrim hquestion hword
  · have htext : ("exit " ++ rest).toList = "exit".toList ++ ' ' :: rest.toList := by simp
    rw [line_exit_behind hne htrim htext (by decide), Text.trim_blank (by decide),
      String.ofList_toList, hcut]

end Shell

/-- What a line does that leaves no bracket open, while the shell collects nothing. It ends the
session if it is the word `exit` or begins with the word `EOF`, and it is answered with a help text
if it begins with `help` or a question mark. A program is run with its line end, its value is echoed
or its failure is reported, and nothing else happens. Behind the word `exit`, if no name goes on
there, it does the same but for the places of what follows the word. -/
theorem Shell.line_evaluates {limits : Limits} {s : Shell} {text : String} {toks : TokenStream}
    (hpending : s.pending = "") (hne : text ≠ "") (htrim : Text.trim text = text)
    (htoks : TokenStream.ofSource text fileName = .ok toks) (hclosed : toks.openBrackets ≤ 0) :
    ((s.line limits text).1 = .leave ↔ text = "exit" ∨ (splitCommand text).1 = "EOF") ∧
    (text.toList.head? = some '?' ∨ (splitCommand text).1 = "help" →
      ∃ topic, s.line limits text = (.goOn, s.print (helpText topic))) ∧
    (IsProgram text → s.line limits text = s.evaluated limits (text ++ "\n")) ∧
    ∀ c rest, text.toList = "exit".toList ++ c :: rest → Text.continuesName c = false →
      '\n' ∉ text.toList →
      Alike s.machine.verbosity (s.line limits text) (s.evaluated limits (text ++ "\n")) := by
  have hbrackets : openBrackets (text ++ "\n") ≤ 0 := by
    rwa [TokenStream.openBrackets_lineEnd htoks]
  refine ⟨fst_line_eq_leave hne htrim, fun h => ?_, fun h => ?_, fun c rest htext hc hline => ?_⟩
  · have hword : (splitCommand (expandHelp text)).1 = "help" := by
      by_cases hquestion : text.toList.head? = some '?'
      · exact splitCommand_question hquestion
      · rw [expandHelp_eq hquestion]
        exact h.resolve_left hquestion
    exact line_help hne htrim hword
  · rw [line_of_isProgram h hne htrim]
    exact programLine_evaluated hpending hbrackets
  · obtain ⟨t, t', ht, ht', hwords, heof⟩ := ofSource_exit htrim htext hc hline htoks
    have hbrackets' := hbrackets
    rw [TokenStream.openBrackets_eq ht, hwords.openBrackets_eq,
      ← TokenStream.openBrackets_eq ht'] at hbrackets'
    rw [line_exit_behind hne htrim htext (isCommandChar_of_continuesName hc),
      programLine_evaluated hpending hbrackets']
    obtain ⟨hends, hmachines⟩ :=
      Machine.runSource_words ht' ht hwords.symm heof.symm limits s.machine
    exact echo_alike hends hmachines

/-- A comparison with the built-in function that has the name of a command, with more blanks than
one. -/
theorem Shell.line_evaluates_exit :
    let limits : Limits := ⟨24, 24, 4⟩
    let s := initial "" 0
    let text := "exit  == 'a'"
    (s.pending = "" ∧ text ≠ "" ∧ Text.trim text = text) ∧ (s.line limits text).1 ≠ .leave ∧
      (s.line limits text).2.machine.output = "0\n" ∧
      Alike 0 (s.line limits text) (s.evaluated limits (text ++ "\n")) := by
  intro limits s text
  have hne : text ≠ "" := by decide
  have htrim : Text.trim text = text := by decide
  obtain ⟨toks, htoks, hclosed⟩ := TokenStream.exists_closed text fileName (by decide +kernel)
  have h := @line_evaluates limits s text toks rfl hne htrim htoks hclosed
  have hspace := h.2.2.2 ' ' " == 'a'".toList (by decide) (by decide) (by decide)
  exact ⟨⟨rfl, hne, htrim⟩, mt h.1.mp (by decide), by decide +kernel, hspace⟩

/-- It is not so that every other line that leaves no bracket open is run: an assignment to a name
that begins like a command is taken for the command. -/
theorem Shell.not_forall_line_runs : ¬ ∀ (limits : Limits) (s : Shell) (text : String),
    s.pending = "" → text ≠ "" → Text.trim text = text → text ≠ "exit" → text ≠ "EOF" →
    (∃ toks, TokenStream.ofSource text fileName = .ok toks ∧ toks.openBrackets ≤ 0) →
    (s.line limits text).1 ≠ .leave := by
  intro h
  have hclosed := TokenStream.exists_closed "EOF = 3" fileName (by decide +kernel)
  have hleave : ((initial "" 0).line .standard "EOF = 3").1 = .leave :=
    (fst_line_eq_leave (by decide) (by decide)).mpr (.inr (by decide))
  exact h .standard (initial "" 0) "EOF = 3" rfl (by decide) (by decide) (by decide) (by decide)
    hclosed hleave

end Lumen
