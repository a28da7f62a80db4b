import Lumen.Proofs.Shell

/-!
# What the shell collects

The shell is called with lines and with empty lines, one after another, and goes on with the next
one however the last one ended. The lines that count make up groups: those of one group are run at
once, when the last of them is there, and up to it they leave a bracket open. Meanwhile the shell
asks for more.
-/

namespace Lumen.Shell

/-- A call of the shell: with a line of a program, or with an empty line. -/
inductive Entry where
  | line (text : String)
  | empty
deriving DecidableEq, Repr

def enter (limits : Limits) (s : Shell) : Entry → Reply × Shell
  | .line text => s.programLine limits text
  | .empty => s.emptyLine limits

/-- The line that a call adds to those that are collected. An empty one counts only behind
others. -/
def counted (s : Shell) : Entry → Option String
  | .line text => some (text ++ "\n")
  | .empty => if s.pending = "" then none else some "\n"

/-- The text that a call hands over to be run: all that is collected then, unless a bracket is open
in it. -/
def handedOver (s : Shell) (e : Entry) : Option String :=
  ((s.counted e).map (s.pending ++ ·)).filter fun text => openBrackets text ≤ 0

def StaysOpen (lines : List String) : Prop :=
  ∀ front, front <+: lines → front ≠ [] → 0 < openBrackets (String.join front)

/-- The lines leave no bracket open, and no fewer of them do so. -/
structure IsGroup (lines : List String) : Prop where
  ne_nil : lines ≠ []
  closed : openBrackets (String.join lines) ≤ 0
  isOpen : ∀ front, front <+: lines → front ≠ [] → front ≠ lines →
    0 < openBrackets (String.join front)

/-- A session with the lines that have counted in it and the texts that have been run. -/
structure Record where
  lines : List String
  texts : List String
  shell : Shell

namespace Record

def enter (limits : Limits) (r : Record) (e : Entry) : Record :=
  ⟨r.lines ++ (r.shell.counted e).toList, r.texts ++ (r.shell.handedOver e).toList,
    (r.shell.enter limits e).2⟩

/-- The session of a shell that has collected nothing yet, after these calls. -/
def after (limits : Limits) (m : Machine) (entries : List Entry) : Record :=
  entries.foldl (enter limits) ⟨[], [], idle m⟩

/-- The lines are cut into groups, which have been run, and the rest, which is still collected and
for which the shell asks for more. -/
structure Cut (r : Record) (groups : List (List String)) (rest : List String) : Prop where
  lines : r.lines = groups.flatten ++ rest
  texts : r.texts = groups.map String.join
  pending : r.shell.pending = String.join rest
  prompt : r.shell.prompt = if rest = [] then mainPrompt else continuationPrompt
  isGroup : ∀ g ∈ groups, IsGroup g
  staysOpen : StaysOpen rest

end Record

/-! ## Groups of lines -/

variable {lines rest : List String} {line : String}

theorem staysOpen_nil : StaysOpen [] := fun _ hfront hne => (hne (List.prefix_nil.mp hfront)).elim

theorem StaysOpen.concat (h : StaysOpen rest)
    (hopen : 0 < openBrackets (String.join rest ++ line)) : StaysOpen (rest ++ [line]) := by
  intro front hfront hne
  rcases List.prefix_concat_iff.mp hfront with rfl | hfront
  · rwa [String.join_append, String.join_cons, String.join_nil, String.append_empty]
  · exact h front hfront hne

theorem StaysOpen.isGroup (h : StaysOpen rest)
    (hclosed : openBrackets (String.join rest ++ line) ≤ 0) : IsGroup (rest ++ [line]) := by
  refine ⟨List.append_ne_nil_of_right_ne_nil _ (List.cons_ne_nil _ _), ?_,
    fun front hfront hne hproper => ?_⟩
  · rwa [String.join_append, String.join_cons, String.join_nil, String.append_empty]
  · exact h front ((List.prefix_concat_iff.mp hfront).resolve_left hproper) hne

/-- What is collected leaves a bracket open, if it is anything. -/
theorem StaysOpen.openBrackets_pos (h : StaysOpen rest) (hne : String.join rest ≠ "") :
    0 < openBrackets (String.join rest) := by
  refine h rest List.prefix_rfl fun hnil => hne ?_
  rw [hnil, String.join_nil]

theorem join_flatten (groups : List (List String)) :
    String.join groups.flatten = String.join (groups.map String.join) := by
  induction groups with
  | nil => rfl
  | cons g groups ih =>
    rw [List.flatten_cons, String.join_append, List.map_cons, String.join_cons, ih]

/-! ## Calls -/

variable {limits : Limits} {s : Shell} {e : Entry}

theorem counted_empty (s : Shell) :
    s.counted .empty = if s.pending = "" then none else some "\n" := rfl

/-- A call that adds a line treats it like a line that was typed in. -/
theorem enter_of_counted (h : s.counted e = some line) :
    s.enter limits e =
      if 0 < openBrackets (s.pending ++ line) then
        (.goOn, ⟨s.machine, s.pending ++ line, continuationPrompt⟩)
      else
        let run := s.machine.runSource limits (s.pending ++ line) fileName
        echo limits run.1 (idle run.2) := by
  cases e with
  | line text =>
    obtain rfl := Option.some.inj h
    rw [enter, programLine, String.append_assoc]
  | empty =>
    rw [counted_empty] at h
    split at h
    · cases h
    · next hne =>
      obtain rfl := Option.some.inj h
      rw [enter, emptyLine, if_neg hne, programLine, String.append_empty]

theorem enter_of_not_counted (h : s.counted e = none) : s.enter limits e = (.goOn, s) := by
  cases e with
  | line text => cases h
  | empty =>
    rw [counted_empty] at h
    split at h
    · next hnil => rw [enter, emptyLine, if_pos hnil]
    · cases h

/-- A call leaves the session as it is, or adds a line to what is collected, or has all of it
run. -/
theorem enter_cases (limits : Limits) (s : Shell) (e : Entry) :
    (s.counted e = none ∧ s.handedOver e = none ∧ s.enter limits e = (.goOn, s)) ∨
      ∃ line, s.counted e = some line ∧
        ((0 < openBrackets (s.pending ++ line) ∧ s.handedOver e = none ∧
            s.enter limits e = (.goOn, ⟨s.machine, s.pending ++ line, continuationPrompt⟩)) ∨
          (openBrackets (s.pending ++ line) ≤ 0 ∧ s.handedOver e = some (s.pending ++ line) ∧
            s.enter limits e =
              let run := s.machine.runSource limits (s.pending ++ line) fileName
              echo limits run.1 (idle run.2))) := by
  unfold handedOver
  cases h : s.counted e with
  | none => exact .inl ⟨rfl, rfl, enter_of_not_counted h⟩
  | some line =>
    refine .inr ⟨line, rfl, ?_⟩
    rw [enter_of_counted h, Option.map_some, Option.filter_some]
    by_cases hopen : 0 < openBrackets (s.pending ++ line)
    · rw [if_pos hopen, if_neg (by simpa using hopen)]
      exact .inl ⟨hopen, rfl, rfl⟩
    · rw [if_neg hopen, if_pos (by simpa using hopen)]
      exact .inr ⟨Int.not_lt.mp hopen, rfl, rfl⟩

namespace Record

variable {r : Record} {groups : List (List String)}

/-- A call keeps the cut, or adds its line to the rest, or closes the rest to a group. -/
theorem Cut.enter (h : r.Cut groups rest) (limits : Limits) (e : Entry) :
    ∃ groups' rest', (r.enter limits e).Cut groups' rest' := by
  unfold Record.enter
  rcases enter_cases limits r.shell e with ⟨hcounted, hhanded, henter⟩ | ⟨line, hcounted, hline⟩
  · rw [hcounted, hhanded, henter]
    refine ⟨groups, rest, ?_, ?_, h.pending, h.prompt, h.isGroup, h.staysOpen⟩
    · exact (List.append_nil _).trans h.lines
    · exact (List.append_nil _).trans h.texts
  · have hlines : r.lines ++ [line] = groups.flatten ++ (rest ++ [line]) := by
      rw [h.lines, List.append_assoc]
    have hjoin : String.join rest ++ line = String.join (rest ++ [line]) := by
      rw [String.join_append, String.join_cons, String.join_nil, String.append_empty]
    rw [hcounted]
    rw [h.pending] at hline
    rcases hline with ⟨hopen, hhanded, henter⟩ | ⟨hclosed, hhanded, henter⟩
    · rw [hhanded, henter]
      refine ⟨groups, rest ++ [line], hlines, ?_, hjoin, ?_, h.isGroup, h.staysOpen.concat hopen⟩
      · exact (List.append_nil _).trans h.texts
      · rw [if_neg (List.append_ne_nil_of_right_ne_nil _ (List.cons_ne_nil _ _))]
    · rw [hhanded, henter]
      refine ⟨groups ++ [rest ++ [line]], [], ?_, ?_, pending_echo .., prompt_echo ..,
        fun g hg => ?_, staysOpen_nil⟩
      · rw [List.flatten_append, List.flatten_singleton, List.append_nil]
        exact hlines
      · rw [List.map_append, List.map_singleton, ← h.texts, ← hjoin]
        rfl
      · rcases List.mem_append.mp hg with hg | hg
        · exact h.isGroup g hg
        · exact List.mem_singleton.mp hg ▸ h.staysOpen.isGroup hclosed

theorem exists_cut (limits : Limits) (m : Machine) (entries : List Entry) :
    ∃ groups rest, (after limits m entries).Cut groups rest := by
  refine List.foldlRecOn (motive := fun r => ∃ groups rest, Cut r groups rest) entries
    (Record.enter limits) ?_ ?_
  · exact ⟨[], [], rfl, rfl, rfl, rfl, nofun, staysOpen_nil⟩
  · rintro r ⟨groups, rest, hcut⟩ e -
    exact hcut.enter limits e

/-- The prompt that is stored tells what is collected: lines that leave a bracket open are some. -/
theorem Cut.prompt_eq_continuationPrompt (h : r.Cut groups rest) :
    r.shell.prompt = continuationPrompt ↔ r.shell.pending ≠ "" := by
  rw [h.prompt, h.pending]
  by_cases hnil : rest = []
  · rw [if_pos hnil, hnil, String.join_nil]
    exact iff_of_false mainPrompt_ne (not_not.mpr rfl)
  · rw [if_neg hnil]
    refine iff_of_true rfl fun hempty => ?_
    have hopen := h.staysOpen rest List.prefix_rfl hnil
    have hzero : openBrackets "" = 0 := by cbv
    rw [hempty, hzero] at hopen
    exact Int.lt_irrefl 0 hopen

end Record

/-- Nothing that the shell is told is lost, and nothing is run twice. After any calls, however they
ended, the shell asks for more just where it has collected lines, and these leave a bracket open.
The texts that were run and what is collected are the lines that counted, in their order; each of
the texts is a group of them, the shortest that leaves no bracket open. And a call either runs what
it is said to hand over, and is done with it, or adds its line and runs nothing. -/
theorem calls_grouped (limits : Limits) (m : Machine) (entries : List Entry) :
    let r := Record.after limits m entries
    (r.shell.prompt = continuationPrompt ↔ r.shell.pending ≠ "") ∧
    (r.shell.pending ≠ "" → 0 < openBrackets r.shell.pending) ∧
    String.join r.texts ++ r.shell.pending = String.join r.lines ∧
    (∃ groups rest, r.Cut groups rest) ∧
    ∀ e, match r.shell.handedOver e with
      | some text =>
        let run := r.shell.machine.runSource limits text fileName
        r.shell.enter limits e = echo limits run.1 (idle run.2)
      | none => r.shell.enter limits e = (.goOn,
          match r.shell.counted e with
          | some line => ⟨r.shell.machine, r.shell.pending ++ line, continuationPrompt⟩
          | none => r.shell) := by
  intro r
  obtain ⟨groups, rest, hcut⟩ := Record.exists_cut limits m entries
  refine ⟨hcut.prompt_eq_continuationPrompt, fun hne => ?_, ?_, ⟨groups, rest, hcut⟩, fun e => ?_⟩
  · rw [hcut.pending] at hne ⊢
    exact hcut.staysOpen.openBrackets_pos hne
  · rw [hcut.texts, hcut.pending, hcut.lines, String.join_append, join_flatten]
  · rcases enter_cases limits r.shell e with ⟨hcounted, hhanded, henter⟩ |
      ⟨line, hcounted, ⟨-, hhanded, henter⟩ | ⟨-, hhanded, henter⟩⟩
    · rw [hhanded, hcounted, henter]
    · rw [hhanded, hcounted, henter]
    · rw [hhanded]
      exact henter

end Lumen.Shell
