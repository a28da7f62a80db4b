import Lumen.Proofs.Eval.Safety.Rules

/-!
# Programs do not go wrong

Whatever source texts have been run on a machine, its store is sound, and the next run ends with a
value that programs compute with, a diagnostic, an exit, or a fault of arithmetic or of a text that
gets too long. No run ends with a fault that only documents and values from elsewhere have.
-/

namespace Lumen

theorem Mark.IsKnown.isPlain {m : Mark} (h : m.IsKnown) : m.isPlain = true := by
  cases m with
  | other => exact h.elim
  | _ => rfl

theorem Span.IsKnown.isPlain {s : Span} (h : s.IsKnown) : s.isPlain = true := by
  rw [Span.isPlain, h.start.isPlain, h.stop.isPlain]
  rfl

/-- What the run of a source may end with. -/
inductive Outcome.IsSound : Outcome → Store → Prop where
  | value {v s} : (∀ w ∈ v, w.IsSound s) → IsSound (.value v) s
  | failure {d s} : d.IsOrdinary → IsSound (.failure d) s
  | exit {code s} : IsSound (.exit code) s
  | infiniteRemainder {s} : IsSound (.fault .infiniteRemainder) s
  | repeatCount {s} : IsSound (.fault .repeatCount) s
  | tooLong {growth s} : IsSound (.fault (.tooLong growth)) s
  /-- A loop went round more often than allowed. -/
  | endless {s} : IsSound .endless s

/-- Running source texts one after another leads to the machine. -/
inductive Machine.Reachable : Machine → Prop where
  | initial (input : String) (verbosity : Nat) : Reachable (.initial input verbosity)
  | runSource {m} (limits : Limits) (source file : String) : Reachable m →
      Reachable (m.runSource limits source file).2

namespace Outcome

variable {s : Store}

theorem isSound_ofDiagnostic {d : Diagnostic} (hd : d.IsOrdinary) : (ofDiagnostic d).IsSound s := by
  rw [ofDiagnostic, hd.span.isPlain]
  exact .failure hd

theorem isSound_ofResult {t : Tree} {r : Except Stop (Option Value)} (ht : t.IsPlaced)
    (hr : Exec.Fine s (Eval.IsSoundAny s) r) : (ofResult t.span r).IsSound s := by
  obtain ⟨sp, hspan, hsp⟩ := ht
  cases r with
  | ok v => exact .value hr
  | error e =>
    cases hr with
    | giveBack hv => exact .value (Eval.isSoundAny_some hv)
    | breakLoop => exact .value Eval.isSoundAny_none
    | continueLoop => exact .value Eval.isSoundAny_none
    | failure hd => exact isSound_ofDiagnostic hd
    | exit => exact .exit
    | infiniteRemainder => exact .infiniteRemainder
    | repeatCount => exact .repeatCount
    | tooLong => exact .tooLong
    | exhausted =>
      rw [hspan]
      exact isSound_ofDiagnostic ⟨hsp, nofun⟩
    | endless => exact .endless

end Outcome

namespace Machine

open Exec (Ready)

variable {m : Machine}

theorem run_safe (limits : Limits) {program : Node} (hm : Ready Store.root m.store)
    (hp : program.WellMade) :
    let r := m.run limits (Tree.ofNode program)
    r.1.IsSound r.2.store ∧ Ready Store.root r.2.store := by
  have hsafe := Eval.safely_evaluate limits.rounds limits.stack program hp Store.root
    (m.note 1 fun _ => "run " ++ (Tree.ofNode program).typeName ++ " in " ++
      (Scope.mk Store.rootName none []).describe)
  have hready : Ready Store.root (m.note 1 fun _ => "run " ++ (Tree.ofNode program).typeName ++
      " in " ++ (Scope.mk Store.rootName none []).describe).store := by
    rw [note_store]
    exact hm
  obtain ⟨hl, hs, hr⟩ := hsafe hready
  exact ⟨Outcome.isSound_ofResult (Tree.isPlaced_ofNode program) hr, hready.next hl hs⟩

theorem Reachable.ready (hm : m.Reachable) : Ready Store.root m.store := by
  induction hm with
  | initial => exact ⟨Nat.zero_lt_one, Store.isSound_initial⟩
  | @runSource m limits source file _ ih =>
    unfold Machine.runSource
    cases hp : Node.ofSource limits source file with
    | error d => exact ih
    | ok program => exact (run_safe limits ih (Node.wellMade_ofSource hp)).2

end Machine

end Lumen
