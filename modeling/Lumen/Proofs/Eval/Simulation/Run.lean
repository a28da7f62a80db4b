import Lumen.Proofs.Eval.Simulation.Rules
import Lumen.Run

/-!
# Whole runs side by side

Two runs of corresponding programs from corresponding machines end in the same way.
-/

namespace Lumen.Eval.Simulation

variable {S : Simulation} {m m' : Machine} {t t' : Tree}

/-- Two ways for runs to end, the same but for spans and for the bodies of functions. -/
inductive Outcomes (S : Simulation) : Outcome → Outcome → Prop where
  | value {v v'} : Option.Rel S.Values v v' → Outcomes S (.value v) (.value v')
  | failure {c s s'} : Spans S.Marks s s' → Outcomes S (.failure ⟨c, s⟩) (.failure ⟨c, s'⟩)
  | exit {code} : Outcomes S (.exit code) (.exit code)
  | fault {f} : Outcomes S (.fault f) (.fault f)
  | exhausted : Outcomes S .exhausted .exhausted
  | endless : Outcomes S .endless .endless

theorem outcomes_ofDiagnostic {c : Complaint} {s s' : Span} (h : Spans S.Marks s s') :
    S.Outcomes (.ofDiagnostic ⟨c, s⟩) (.ofDiagnostic ⟨c, s'⟩) := by
  unfold Outcome.ofDiagnostic Span.isPlain
  rw [← S.isPlain_eq h.start, ← S.isPlain_eq h.stop]
  split
  · exact .failure h
  · exact .fault

theorem outcomes_ofResult {r r' : Except Stop (Option Value)} {s s' : Except Fault Span}
    (hr : S.Results (Option.Rel S.Values) r r') (hs : Readings (Spans S.Marks) s s') :
    S.Outcomes (.ofResult s r) (.ofResult s' r') := by
  cases hr with
  | ok hv => exact .value hv
  | error he =>
    cases he with
    | giveBack hv => exact .value (.some hv)
    | breakLoop => exact .value .none
    | continueLoop => exact .value .none
    | failure h => exact outcomes_ofDiagnostic h
    | exit => exact .exit
    | fault => exact .fault
    | exhausted =>
      cases hs with
      | ok h => exact outcomes_ofDiagnostic h
      | error => exact .fault
    | endless => exact .endless

/-- What a run of the program does once it has been announced. -/
theorem run_eq (limits : Limits) (t : Tree) (m : Machine) :
    m.run limits t =
      let m := m.note 1 fun _ =>
        "run " ++ t.typeName ++ " in " ++ (Scope.mk Store.rootName none []).describe
      let x := evaluate limits.rounds limits.stack t Store.root
      (Outcome.ofResult t.span (x.result m), x.final m) := rfl

theorem run (hexcused : ¬ S.excused) (limits : Limits) (hm : S.Machines m m') (ht : S.Parts t t')
    (htype : t.typeName = t'.typeName) (hroot : S.Reaches Store.root) :
    S.Outcomes (m.run limits t).1 (m'.run limits t').1 ∧
      S.Machines (m.run limits t).2 (m'.run limits t').2 := by
  rw [run_eq, run_eq, ← htype]
  have hrooms : S.Rooms limits.stack limits.stack := .inl rfl
  have hev := S.evaluates limits.rounds hrooms t t' ht
  rcases hev.alike _ hroot _ _ (hm.note (S.logs_note 1 _)) with ⟨he, _⟩ | ⟨hr, hm'⟩
  · exact (hexcused he).elim
  · exact ⟨outcomes_ofResult hr (S.span ht), hm'⟩

end Lumen.Eval.Simulation
