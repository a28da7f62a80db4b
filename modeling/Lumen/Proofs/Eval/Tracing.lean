import Lumen.Eval
import Lumen.Proofs.Exec

/-!
# How far the trace goes down

Each message of a trace has a level, which its first word tells. A machine that traces less far is
the same but for the messages beyond its level, and `Exec.Quiet` says of an action that it makes no
other difference: it ends in the same way, and leaves a machine that differs in nothing else. There
is one lemma for each way to build an action.
-/

namespace Lumen

/-- The level of a message: runs, then definitions, assignments and calls, then the ways through
conditionals and loops. -/
def levelOf (message : String) : Nat :=
  match String.ofList (message.toList.takeWhile (· != ' ')) with
  | "run" => 1
  | "define" | "assign" | "call" => 2
  | _ => 3

theorem one_le_levelOf (message : String) : 1 ≤ levelOf message := by
  unfold levelOf
  split <;> decide

/-- What stands behind the first word does not matter. -/
theorem levelOf_append {w : String} (hw : ' ' ∈ w.toList) (s : String) :
    levelOf (w ++ s) = levelOf w := by
  have htake (cs ds : List Char) (h : ' ' ∈ cs) :
      (cs ++ ds).takeWhile (· != ' ') = cs.takeWhile (· != ' ') := by
    induction cs with
    | nil => cases h
    | cons c cs ih =>
      rw [List.cons_append, List.takeWhile_cons, List.takeWhile_cons]
      by_cases hc : c = ' '
      · rw [hc]
        rfl
      · rw [ih ((List.mem_cons.mp h).resolve_left (Ne.symm hc))]
  unfold levelOf
  rw [String.toList_append, htake _ _ hw]

def Machine.quieten (d : Nat) (m : Machine) : Machine :=
  { m with
    verbosity := min m.verbosity d
    trace := m.trace.filter fun message => levelOf message ≤ d }

theorem Machine.quieten_note {d level : Nat} {message : Unit → String}
    (h : levelOf (message ()) = level) (m : Machine) :
    (m.note level message).quieten d = (m.quieten d).note level message := by
  unfold note
  by_cases hd : level ≤ d
  -- Within the level both machines take the message or both do not; beyond it the quiet one does
  -- not, and what the other one takes is left out.
  · have hmin : level ≤ (m.quieten d).verbosity ↔ level ≤ m.verbosity :=
      ⟨fun hle => Nat.le_trans hle (Nat.min_le_left _ _), fun hle => Nat.le_min.mpr ⟨hle, hd⟩⟩
    by_cases hm : level ≤ m.verbosity
    · rw [if_pos hm, if_pos (hmin.mpr hm)]
      simp only [quieten, Array.filter_push, h, hd, decide_true, if_true]
    · rw [if_neg hm, if_neg (mt hmin.mp hm)]
  · have hmin : ¬ level ≤ (m.quieten d).verbosity :=
      fun hle => hd (Nat.le_trans hle (Nat.min_le_right _ _))
    rw [if_neg hmin]
    split
    · simp [quieten, h, hd]
    · rfl

namespace Exec

/-- The action ends in the same way where the trace goes down to level `d` at most, and leaves the
same machine but for the messages beyond the level. -/
def Quiet {α : Type} (d : Nat) (x : Exec α) : Prop :=
  ∀ m, x.result (m.quieten d) = x.result m ∧ x.final (m.quieten d) = (x.final m).quieten d

variable {α β : Type} {d : Nat}

theorem quiet_pure (a : α) : Quiet d (pure a) := fun _ => ⟨rfl, rfl⟩

theorem quiet_throw (e : Stop) : Quiet d (throw e : Exec α) := fun _ => ⟨rfl, rfl⟩

theorem quiet_fail (diagnostic : Diagnostic) : Quiet d (fail diagnostic : Exec α) := quiet_throw _

theorem quiet_ofExcept (x : Except Stop α) : Quiet d (ofExcept x) := fun _ => ⟨rfl, rfl⟩

theorem quiet_ofDocument (x : Except Fault α) : Quiet d (ofDocument x) := quiet_ofExcept _

theorem quiet_store : Quiet d store := fun _ => ⟨rfl, rfl⟩

theorem quiet_updateStore (f : Store → Store) : Quiet d (updateStore f) := fun _ => ⟨rfl, rfl⟩

theorem quiet_newList (elements : Array Value) : Quiet d (newList elements) := fun _ => ⟨rfl, rfl⟩

theorem quiet_newScope (scope : Scope) : Quiet d (newScope scope) := fun _ => ⟨rfl, rfl⟩

theorem quiet_print (s : String) : Quiet d (update (·.print s)) := fun _ => ⟨rfl, rfl⟩

theorem Quiet.bind {x : Exec α} {f : α → Exec β} (hx : Quiet d x) (hf : ∀ a, Quiet d (f a)) :
    Quiet d (x >>= f) := by
  intro m
  obtain ⟨hr, hm⟩ := hx m
  rw [result_bind, result_bind, final_bind, final_bind, hr, hm]
  cases x.result m with
  | ok a => exact hf a _
  | error e => exact ⟨rfl, rfl⟩

theorem Quiet.attempt {x : Exec α} (hx : Quiet d x) : Quiet d (Exec.attempt x) :=
  fun m => ⟨congrArg Except.ok (hx m).1, (hx m).2⟩

theorem Quiet.ite {c : Prop} [Decidable c] {x y : Exec α} (hx : Quiet d x) (hy : Quiet d y) :
    Quiet d (if c then x else y) := by
  split
  · exact hx
  · exact hy

/-- An action that only one way of two starts with. -/
theorem Quiet.optionally {c : Prop} [Decidable c] {x : Exec α} {y : Exec β} (hx : Quiet d x)
    (hy : Quiet d y) : Quiet d (if c then x >>= fun _ => y else y) :=
  .ite (hx.bind fun _ => hy) hy

theorem Quiet.located {s : Except Fault Span} {x : Exec α} (hx : Quiet d x) :
    Quiet d (Exec.located s x) := by
  refine hx.attempt.bind fun r => ?_
  split
  · exact quiet_pure _
  · exact .ite ((quiet_ofDocument _).bind fun _ => quiet_fail _) (quiet_fail _)
  · exact quiet_throw _

theorem quiet_text (form : Form) (room : Nat) (v : Value) : Quiet d (text form room v) := by
  refine quiet_store.bind fun s => ?_
  split
  · exact quiet_pure _
  · exact quiet_throw _

theorem quiet_note {level : Nat} {message : Unit → String} (h : levelOf (message ()) = level) :
    Quiet d (note level message) := fun m => ⟨rfl, (m.quieten_note h).symm⟩

/-- The value's text is made at every level, so it needs the same room. -/
theorem quiet_noteValue {room level : Nat} {v : Value} {message : String → String}
    (h : ∀ s, levelOf (message s) = level) : Quiet d (noteValue room level v message) := by
  refine quiet_store.bind fun s => ?_
  split
  · exact quiet_note (h _)
  · exact quiet_throw _

theorem quiet_mapM {f : α → Exec β} (hf : ∀ a, Quiet d (f a)) (xs : List α) :
    Quiet d (xs.mapM f) := by
  induction xs with
  | nil => exact quiet_pure _
  | cons a xs ih =>
    rw [List.mapM_cons]
    exact (hf a).bind fun _ => ih.bind fun _ => quiet_pure _

/-! ## Lists -/

theorem quiet_holds (v : Value) : Quiet d (holds v) := quiet_ofDocument _

theorem quiet_access (l : ListId) (index : Value) (upTo : Option Value) :
    Quiet d (access l index upTo) := by
  refine quiet_store.bind fun s => ?_
  split
  · exact (quiet_ofExcept _).bind fun _ => quiet_pure _
  · exact (quiet_ofExcept _).bind fun _ => quiet_newList _

theorem quiet_assign (l : ListId) (index value : Value) : Quiet d (assign l index value) :=
  quiet_store.bind fun _ => (quiet_ofExcept _).bind fun _ => quiet_updateStore _

end Exec

open Exec (Quiet quiet_pure quiet_throw quiet_fail quiet_ofExcept quiet_store quiet_newList
  quiet_print quiet_text quiet_mapM)

variable {d : Nat}

theorem Operator.quiet_apply (o : Operator) (a b : Value) : Quiet d (o.apply a b) := by
  unfold Operator.apply
  split
  · exact quiet_store.bind fun _ => quiet_newList _
  · exact quiet_ofExcept _

/-! ## Built-in functions -/

namespace Builtin

theorem quiet_refuse {α : Type} (c : Complaint) : Quiet d (refuse c : Exec α) := quiet_fail _

theorem quiet_refuseAt {α : Type} (c : Complaint) (v : Value) : Quiet d (refuseAt c v : Exec α) :=
  quiet_fail _

theorem quiet_needData (b : Builtin) (v : Value) : Quiet d (needData b v) := by
  unfold needData
  split
  · exact quiet_pure _
  · exact quiet_refuseAt _ _

theorem quiet_needText (b : Builtin) (v : Value) : Quiet d (needText b v) := by
  refine (quiet_needData b v).bind fun j => ?_
  split
  · exact quiet_pure _
  · exact quiet_throw _

theorem quiet_needList (b : Builtin) (v : Value) : Quiet d (needList b v) := by
  unfold needList
  split
  · exact quiet_store.bind fun _ => quiet_pure _
  · exact quiet_refuseAt _ _

theorem quiet_printValues (room : Nat) (args : List Value) (ending : String) :
    Quiet d (printValues room args ending) :=
  (quiet_mapM (quiet_text _ _) args).bind fun _ => quiet_print _

theorem quiet_readLine (prompt : Json) : Quiet d (readLine prompt) := by
  have hread : Quiet d (do
      let line := (← get : Machine).nextLine
      Exec.update Machine.dropLine
      return Value.text line) := fun _ => ⟨rfl, rfl⟩
  unfold readLine
  split
  · exact (quiet_print _).bind fun _ => hread
  · exact (quiet_throw _).bind fun _ => hread

theorem quiet_replacement (argument : Nat) (j : Json) : Quiet d (replacement argument j) := by
  unfold replacement
  split
  · exact quiet_pure _
  · exact quiet_throw _

theorem quiet_replaced (s old new : Value) : Quiet d (replaced s old new) := by
  refine (quiet_needData _ s).bind fun _ => (quiet_needData _ old).bind fun _ => ?_
  refine (quiet_needData _ new).bind fun _ => ?_
  split
  · refine (quiet_replacement _ _).bind fun _ => (quiet_replacement _ _).bind fun _ => ?_
    exact quiet_ofExcept _
  · exact quiet_throw _

theorem quiet_exitCode (args : List Value) : Quiet d (exitCode args) := by
  unfold exitCode
  split
  · exact quiet_pure _
  · split
    · exact .ite (quiet_pure _) (quiet_refuseAt _ _)
    · exact quiet_refuseAt _ _
  · exact quiet_refuse _

theorem quiet_run (room : Nat) (b : Builtin) (args : List Value) : Quiet d (run room b args) := by
  have hcase {b : Builtin} {v : Value} (map : String → String) :
      Quiet d (do Exec.ofExcept (changeCase map (← needText b v))) :=
    (quiet_needText _ _).bind fun _ => quiet_ofExcept _
  have hrest {b : Builtin} {v : Value} (f : Array Value → Array Value) :
      Quiet d (do
        let elements ← needList b v
        if elements.isEmpty then refuseAt (.emptyList b.name) v
        else Exec.newList (f elements)) :=
    (quiet_needList _ _).bind fun _ => .ite (quiet_refuseAt _ _) (quiet_newList _)
  unfold run
  split
  · exact (quiet_printValues _ _ _).bind fun _ => quiet_pure _
  · exact (quiet_printValues _ _ _).bind fun _ => quiet_pure _
  · exact quiet_readLine _
  · exact (quiet_needData _ _).bind fun _ => quiet_readLine _
  · exact quiet_refuse _
  · split
    · exact quiet_store.bind fun _ => quiet_pure _
    · exact quiet_pure _
    · split
      · exact quiet_pure _
      · exact quiet_throw _
    · exact quiet_refuseAt _ _
  · exact (quiet_needText _ _).bind fun _ => quiet_pure _
  · exact hcase Text.upper
  · exact hcase Text.lower
  · exact quiet_replaced _ _ _
  · exact (quiet_needList _ _).bind fun _ => quiet_newList _
  · exact quiet_refuse _
  · exact (quiet_needList _ _).bind fun _ => quiet_newList _
  · exact quiet_refuse _
  · exact hrest fun elements => elements.extract 1 elements.size
  · exact hrest Array.pop
  · exact (quiet_exitCode _).bind fun _ => quiet_throw _
  · exact quiet_refuse _

theorem quiet_call (room : Nat) (b : Builtin) (place : Span) (args : List Value) :
    Quiet d (call room b place args) := by
  unfold call
  split
  · exact .ite (quiet_run _ _ _) (quiet_fail _)
  · exact quiet_run _ _ _

end Builtin

end Lumen
