import Lumen.Proofs.Eval.Origin.Run
import Lumen.Proofs.Parser.Refusals

/-!
# Where a single source fails

A source that fails on a machine on which nothing has been run fails at a stretch of its own text.
Only a failure that is about two values goes from the start of one stretch to the end of another,
and since an element of a list keeps the place where it was made, the end may come first.
-/

namespace Lumen

open Token (Between)

variable {source file : String} {d : Diagnostic}

/-- What points between the tokens of a source lies in its file, or is about two values that come
from two stretches of it. -/
theorem Diagnostic.PointsInto.liesInFile {s : TokenStream}
    (hs : TokenStream.ofSource source file = .ok s) (h : d.PointsInto (Between s.toList)) :
    d.LiesInFile file ∨ d.complaint.IsAboutTwo ∧ ∃ p q p' q', d.span = ⟨.exact p, .exact q'⟩ ∧
      Between s.toList p q ∧ Between s.toList p' q' := by
  cases h with
  | within hpq =>
    obtain ⟨hp, hq⟩ := TokenStream.file_of_between hs hpq
    exact .inl ⟨_, _, rfl, hp, hq, hpq.lt⟩
  | step hpq =>
    have hp := (TokenStream.file_of_between hs hpq).1
    exact .inl ⟨_, _, rfl, hp, hp, Int.lt_succ _⟩
  | across htwo hpq hpq' => exact .inr ⟨htwo, _, _, _, _, rfl, hpq, hpq'⟩

/-- The ends of the failure belong to two stretches of the source, none of which is inverted. -/
def Diagnostic.Joins (source file : String) (d : Diagnostic) : Prop :=
  ∃ s, TokenStream.ofSource source file = .ok s ∧ ∃ p q p' q', d.span = ⟨.exact p, .exact q'⟩ ∧
    p.file = file ∧ q'.file = file ∧ Between s.toList p q ∧ Between s.toList p' q'

def Outcome.located? : Outcome → Option (Complaint × Position × Position)
  | .failure ⟨c, ⟨.exact p, .exact q⟩⟩ => some (c, p, q)
  | _ => none

theorem Outcome.eq_of_located? {o : Outcome} {c : Complaint} {p q : Position}
    (h : o.located? = some (c, p, q)) : o = .failure ⟨c, ⟨.exact p, .exact q⟩⟩ := by
  unfold located? at h
  split at h
  · cases h
    rfl
  · cases h

namespace Machine

/-- Whatever a source fails with on a fresh machine, it lies in the source from one place to a later
one, or is about two values and joins the places that these have. -/
theorem runSource_span {limits : Limits} {input : String} {verbosity : Nat}
    (hd : ((initial input verbosity).runSource limits source file).1 = .failure d) :
    d.LiesInFile file ∨ d.complaint.IsAboutTwo ∧ d.Joins source file := by
  unfold Machine.runSource at hd
  cases hp : Node.ofSource limits source file with
  | error d' =>
    rw [hp] at hd
    cases hd
    exact .inl (Node.liesInFile_of_ofSource hp)
  | ok program =>
    rw [hp] at hd
    obtain ⟨s, hs, hprogram⟩ := Node.liesIn_ofSource hp
    have hpoints := (run_pointsInto limits Store.isFrom_initial hprogram).2 d hd
    refine (hpoints.liesInFile hs).imp_right ?_
    rintro ⟨htwo, p, q, p', q', hspan, hpq, hpq'⟩
    have hp := (TokenStream.file_of_between hs hpq).1
    have hq := (TokenStream.file_of_between hs hpq').2
    exact ⟨htwo, s, hs, p, q, p', q', hspan, hp, hq, hpq, hpq'⟩

/-- Two elements of a list are compared the other way round than they stand in it. -/
theorem runSource_inverted :
    ((initial "" 0).runSource Limits.standard "xs = [1, 'a']\nxs[1] < xs[0]" "f").1 =
      .failure ⟨.incomparable .text .number, ⟨.exact ⟨"f", 1, 10, 9⟩, .exact ⟨"f", 1, 8, 7⟩⟩⟩ := by
  refine Outcome.eq_of_located? ?_
  decide +kernel

/-- The end of the one element and the start of the other. -/
theorem runSource_span_elements :
    let source := "xs = [1, 'a']\nxs[1] < xs[0]"
    let d : Diagnostic :=
      ⟨.incomparable .text .number, ⟨.exact ⟨"f", 1, 10, 9⟩, .exact ⟨"f", 1, 8, 7⟩⟩⟩
    ((initial "" 0).runSource Limits.standard source "f").1 = .failure d ∧
      (d.LiesInFile "f" ∨ d.complaint.IsAboutTwo ∧ d.Joins source "f") :=
  ⟨runSource_inverted, runSource_span runSource_inverted⟩

/-- Not every failure goes from one place to a later one. -/
theorem not_forall_liesInFile :
    ¬ ∀ (source file : String) (d : Diagnostic),
      ((initial "" 0).runSource Limits.standard source file).1 = .failure d →
        d.LiesInFile file := by
  intro h
  obtain ⟨p, q, hspan, -, -, hlt⟩ := h _ _ _ runSource_inverted
  cases hspan
  exact absurd hlt (by decide)

end Machine

end Lumen
