import Lumen.Proofs.Operation

/-!
# Operations do not go on without end

Only a loop goes round until its rounds run out. No operator, no access to a list and no built-in
function ends so, whatever it is applied to.
-/

namespace Lumen

variable {α β : Type}

def IsTimely : Except Stop α → Prop
  | .error .endless => False
  | _ => True

namespace IsTimely

theorem bind {r : Except Stop α} {f : α → Except Stop β} (h : IsTimely r)
    (hf : ∀ a, IsTimely (f a)) : IsTimely (r >>= f) := by
  cases r with
  | ok a => exact hf a
  | error e => cases e <;> exact h

theorem map {r : Except Stop α} {f : α → β} (h : IsTimely r) : IsTimely (r.map f) := by
  cases r with
  | ok a => trivial
  | error e => cases e <;> exact h

theorem ofDocument (x : Except Fault α) : IsTimely (x.mapError Stop.fault) := by
  cases x <;> trivial

end IsTimely

namespace Value

theorem isTimely_needNumber (v : Value) : IsTimely v.needNumber := by
  unfold needNumber
  split <;> trivial

theorem isTimely_needDivisor (v : Value) : IsTimely v.needDivisor := by
  refine (isTimely_needNumber v).bind fun y => ?_
  split <;> trivial

theorem isTimely_refuseBetween (c : Complaint) (a b : Value) :
    IsTimely (refuseBetween c a b : Except Stop α) := by
  unfold refuseBetween
  split <;> trivial

theorem isTimely_numberOperation (o : Operator) (x : Float) (b : Value) :
    IsTimely (numberOperation o x b) := by
  cases o with
  | add | sub | mul | pow => exact (isTimely_needNumber b).bind fun y => trivial
  | div => exact (isTimely_needDivisor b).bind fun y => trivial
  | mod =>
    refine (isTimely_needDivisor b).bind fun y => ?_
    cases Double.remainder? x y <;> trivial
  | _ => trivial

theorem isTimely_grown (growth : Growth) (size : Nat) (s : Unit → String) :
    IsTimely (grown growth size s) := by
  unfold grown
  split <;> trivial

theorem isTimely_textOperation (o : Operator) (a : Value) (s : String) (b : Value) :
    IsTimely (textOperation o a s b) := by
  cases o with
  | add =>
    unfold textOperation
    dsimp only
    split
    · exact isTimely_grown _ _ _
    · trivial
  | mul =>
    refine (isTimely_needNumber b).bind fun y => ?_
    unfold repeated
    split
    · split
      · trivial
      · split
        · trivial
        · exact isTimely_grown _ _ _
    · trivial
  | _ => trivial

theorem isTimely_arithmetic (o : Operator) (a b : Value) : IsTimely (arithmetic o a b) := by
  unfold arithmetic
  split
  · exact isTimely_numberOperation o _ b
  · exact isTimely_textOperation o a _ b
  · split <;> trivial
  · trivial

theorem isTimely_ordered (numbers : Float → Float → Bool) (texts : String → String → Bool)
    (a b : Value) : IsTimely (ordered numbers texts a b) := by
  unfold ordered
  split
  · trivial
  · trivial
  · unfold incomparable
    dsimp only
    split
    · trivial
    · exact isTimely_refuseBetween _ a b

theorem isTimely_operate (o : Operator) (a b : Value) : IsTimely (operate o a b) := by
  cases o with
  | eq | ne | and | or => trivial
  | gt | ge | lt | le => exact isTimely_ordered _ _ a b
  | _ => exact isTimely_arithmetic _ a b

theorem isTimely_operateData (o : Operator) (a b : Value) : IsTimely (operateData o a b) := by
  have hdata (r : Except Fault Json) :
      IsTimely ((r.mapError Stop.fault).map fun j => unplaced (.datum j)) :=
    (IsTimely.ofDocument r).map
  have horder (r : Except Fault Bool) : IsTimely ((r.mapError Stop.fault).map ofBool) :=
    (IsTimely.ofDocument r).map
  unfold operateData
  dsimp only
  split
  · exact IsTimely.ofDocument _
  · exact IsTimely.ofDocument _
  · trivial
  · trivial
  · exact hdata _
  · exact horder _
  · exact horder _
  · exact horder _
  · exact horder _
  · trivial
  · refine (isTimely_needNumber b).bind fun y => ?_
    split
    · exact hdata _
    · trivial
  · exact isTimely_operate _ a b

theorem isTimely_copyTo (v : Value) (s : Span) : IsTimely (v.copyTo s) := by
  unfold copyTo
  split <;> trivial

theorem isTimely_checkIndex (length : Nat) (upper : Int) (index : Value) :
    IsTimely (checkIndex length upper index) := by
  unfold checkIndex
  split
  · split
    · dsimp only
      split <;> trivial
    · trivial
  · trivial

theorem isTimely_checkSlice (length : Nat) (index upTo : Value) :
    IsTimely (checkSlice length index upTo) := by
  refine (isTimely_checkIndex _ _ index).bind fun start =>
    (isTimely_checkIndex _ _ upTo).bind fun stop => ?_
  split
  · exact isTimely_refuseBetween _ index upTo
  · trivial

end Value

namespace Exec

def Timely (x : Exec α) : Prop := ∀ m, x.Ends m fun r _ => IsTimely r

theorem timely_pure {a : α} : (pure a : Exec α).Timely := fun _ => trivial

theorem timely_ofExcept {r : Except Stop α} (h : IsTimely r) : (ofExcept r).Timely :=
  fun _ => h

theorem timely_ofDocument {x : Except Fault α} : (ofDocument x).Timely :=
  fun _ => IsTimely.ofDocument x

theorem timely_fail {d : Diagnostic} : (fail d : Exec α).Timely := fun _ => trivial

theorem timely_fault {f : Fault} : (throw (.fault f) : Exec α).Timely := fun _ => trivial

theorem timely_store : store.Timely := fun _ => trivial

theorem timely_update {f : Machine → Machine} : (update f).Timely := fun _ => trivial

theorem timely_updateStore {f : Store → Store} : (updateStore f).Timely := fun _ => trivial

theorem timely_newList {elements : Array Value} : (newList elements).Timely := fun _ => trivial

theorem timely_note {level : Nat} {message : Unit → String} : (note level message).Timely :=
  timely_update

theorem Timely.bind {x : Exec α} {f : α → Exec β} (hx : x.Timely) (hf : ∀ a, (f a).Timely) :
    (x >>= f).Timely := by
  intro m
  rw [ends_bind]
  refine (hx m).mono fun r m' hr => ?_
  cases r with
  | ok a => exact hf a m'
  | error e => cases e <;> exact hr

theorem Timely.ite {p : Prop} [Decidable p] {x y : Exec α} (hx : x.Timely) (hy : y.Timely) :
    (if p then x else y).Timely := by
  split
  · exact hx
  · exact hy

theorem isTimely_ofObstacle (o : Obstacle) :
    IsTimely (.error (.ofObstacle o) : Except Stop α) := by
  cases o <;> trivial

theorem timely_text {form : Form} {room : Nat} {v : Value} : (text form room v).Timely :=
  fun _ => ends_text (fun _ => trivial) fun o => isTimely_ofObstacle o

theorem timely_noteValue {room level : Nat} {v : Value} {message : String → String} :
    (noteValue room level v message).Timely :=
  fun _ => ends_noteValue (fun _ => trivial) fun o => isTimely_ofObstacle o

theorem Timely.located {s : Except Fault Span} {x : Exec α} (h : x.Timely) :
    (located s x).Timely := by
  intro m
  rw [Exec.located, ends_bind, ends_attempt]
  refine (h m).mono fun r m' hr => ?_
  cases r with
  | ok a => trivial
  | error e =>
    cases e with
    | failure d =>
      dsimp only
      exact (Timely.ite (timely_ofDocument.bind fun _ => timely_fail) timely_fail) m'
    | _ => exact hr

theorem timely_access {l : ListId} {i : Value} {upTo : Option Value} :
    (access l i upTo).Timely := by
  refine timely_store.bind fun s => ?_
  dsimp only
  split
  · exact (timely_ofExcept (Value.isTimely_checkIndex _ _ i)).bind fun k => timely_pure
  · exact (timely_ofExcept (Value.isTimely_checkSlice _ i _)).bind fun range => timely_newList

theorem timely_assign {l : ListId} {i v : Value} : (assign l i v).Timely :=
  timely_store.bind fun _ =>
    (timely_ofExcept (Value.isTimely_checkIndex _ _ i)).bind fun _ => timely_updateStore

end Exec

theorem Operator.timely_apply (o : Operator) (a b : Value) : (o.apply a b).Timely := by
  unfold apply
  split
  · exact Exec.timely_store.bind fun s => Exec.timely_newList
  · refine Exec.timely_ofExcept ?_
    split
    · exact Value.isTimely_operateData _ a b
    · exact Value.isTimely_operate _ a b

namespace Builtin

open Exec

variable {room : Nat} {b : Builtin} {v : Value} {args : List Value}

theorem timely_refuse {complaint : Complaint} : (refuse complaint : Exec α).Timely := timely_fail

theorem timely_refuseAt {complaint : Complaint} : (refuseAt complaint v : Exec α).Timely :=
  timely_fail

theorem timely_needData : (b.needData v).Timely := by
  unfold needData
  split
  · exact timely_pure
  · exact timely_refuseAt

theorem timely_needText : (b.needText v).Timely := by
  refine timely_needData.bind fun j => ?_
  split
  · exact timely_pure
  · exact timely_fault

theorem timely_needList : (b.needList v).Timely := by
  unfold needList
  split
  · exact timely_store.bind fun s => timely_pure
  · exact timely_refuseAt

theorem timely_texts {form : Form} : (args.mapM (text form room)).Timely := by
  induction args with
  | nil => exact timely_pure
  | cons v args ih =>
    rw [List.mapM_cons]
    exact timely_text.bind fun s => ih.bind fun texts => timely_pure

theorem timely_printValues {ending : String} : (printValues room args ending).Timely :=
  timely_texts.bind fun _ => timely_update

theorem timely_readLine {prompt : Json} : (readLine prompt).Timely := by
  have hread : (do
      let line := (← get).nextLine
      Exec.update Machine.dropLine
      return Value.text line : Exec Value).Timely := fun _ => trivial
  unfold readLine
  split
  · exact timely_update.bind fun _ => hread
  · exact timely_fault.bind fun _ => hread

theorem timely_replacement {argument : Nat} {j : Json} : (replacement argument j).Timely := by
  unfold replacement
  split
  · exact timely_pure
  · exact timely_fault

theorem isTimely_replaceIn (s old new : String) : IsTimely (replaceIn s old new) := by
  unfold replaceIn
  split
  · trivial
  · exact Value.isTimely_grown _ _ _

theorem isTimely_changeCase (map : String → String) (s : String) :
    IsTimely (changeCase map s) := by
  unfold changeCase
  split
  · trivial
  · exact Value.isTimely_grown _ _ _

theorem timely_replaced {s old new : Value} : (replaced s old new).Timely := by
  refine timely_needData.bind fun s => timely_needData.bind fun old => ?_
  refine timely_needData.bind fun new => ?_
  split
  · exact timely_replacement.bind fun old => timely_replacement.bind fun new =>
      timely_ofExcept (isTimely_replaceIn _ old new)
  · exact timely_fault

theorem timely_exitCode : (exitCode args).Timely := by
  unfold exitCode
  split
  · exact timely_pure
  · split
    · exact timely_pure.ite timely_refuseAt
    · exact timely_refuseAt
  · exact timely_refuse

theorem timely_len (room : Nat) : (run room len [v]).Timely := by
  unfold run
  dsimp only
  split
  · exact timely_store.bind fun s => timely_pure
  · exact timely_pure
  · split
    · exact timely_pure
    · exact timely_fault
  · exact timely_refuseAt

theorem timely_run : (run room b args).Timely := by
  unfold run
  split
  · exact timely_printValues.bind fun _ => timely_pure
  · exact timely_printValues.bind fun _ => timely_pure
  · exact timely_readLine
  · exact timely_needData.bind fun j => timely_readLine
  · exact timely_refuse
  · exact timely_len room
  · exact timely_needText.bind fun s => timely_pure
  · exact timely_needText.bind fun s => timely_ofExcept (isTimely_changeCase Text.upper s)
  · exact timely_needText.bind fun s => timely_ofExcept (isTimely_changeCase Text.lower s)
  · exact timely_replaced
  · exact timely_needList.bind fun elements => timely_newList
  · exact timely_refuse
  · exact timely_needList.bind fun elements => timely_newList
  · exact timely_refuse
  · exact timely_needList.bind fun elements => timely_refuseAt.ite timely_newList
  · exact timely_needList.bind fun elements => timely_refuseAt.ite timely_newList
  · exact timely_exitCode.bind fun code _ => trivial
  · exact timely_refuse

theorem timely_call {place : Span} : (b.call room place args).Timely := by
  unfold call
  split
  · exact timely_run.ite timely_fail
  · exact timely_run

end Builtin

end Lumen
