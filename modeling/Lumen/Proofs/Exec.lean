import Lumen.Machine

/-!
# What an action ends with

An action on a machine has a result and leaves a machine, whatever way it ends. `Ends x m Q` says
`Q` of the two; each way to build an action has one equation for it, so that the rules of evaluation
are taken apart by rewriting. The three results that are signals are told apart from those that end
the whole run.
-/

namespace Lumen

/-- The result is caught by a loop or by a function. -/
def Stop.IsSignal : Stop → Prop
  | .giveBack _ | .breakLoop | .continueLoop => True
  | _ => False

def Gives {α : Type} (P : α → Prop) : Except Stop α → Prop
  | .ok a => P a
  | .error e => ¬ e.IsSignal

namespace Gives

variable {α β : Type} {P : α → Prop} {Q : β → Prop}

theorem mono {P' : α → Prop} {r : Except Stop α} (h : Gives P r) (himp : ∀ a, P a → P' a) :
    Gives P' r := by
  cases r with
  | ok a => exact himp a h
  | error e => exact h

theorem bind {r : Except Stop α} {f : α → Except Stop β} (h : Gives P r)
    (hf : ∀ a, P a → Gives Q (f a)) : Gives Q (r >>= f) := by
  cases r with
  | ok a => exact hf a h
  | error e => exact h

theorem map {r : Except Stop α} {f : α → β} (h : Gives P r) (hf : ∀ a, P a → Q (f a)) :
    Gives Q (r.map f) := by
  cases r with
  | ok a => exact hf a h
  | error e => exact h

theorem failure (d : Diagnostic) : Gives P (.error (.failure d)) := id

theorem fault (f : Fault) : Gives P (.error (.fault f)) := id

/-- What a document refuses is a fault. -/
theorem ofDocument (x : Except Fault α) : Gives (fun a => x = .ok a) (x.mapError Stop.fault) := by
  cases x with
  | ok a => rfl
  | error f => exact id

end Gives

namespace Exec

variable {α β : Type} {m : Machine}

def result (x : Exec α) (m : Machine) : Except Stop α := (x.run.run m).1

def final (x : Exec α) (m : Machine) : Machine := (x.run.run m).2

def Ends (x : Exec α) (m : Machine) (Q : Except Stop α → Machine → Prop) : Prop :=
  Q (x.result m) (x.final m)

theorem Ends.mono {x : Exec α} {P Q : Except Stop α → Machine → Prop} (h : x.Ends m P)
    (himp : ∀ r m', P r m' → Q r m') : x.Ends m Q := himp _ _ h

theorem ends_bind {x : Exec β} {f : β → Exec α} {Q : Except Stop α → Machine → Prop} :
    (x >>= f).Ends m Q ↔ x.Ends m fun r m' =>
      match r with
      | .ok b => (f b).Ends m' Q
      | .error e => Q (.error e) m' := by
  simp only [Ends, result, final, ExceptT.run_bind, StateT.run_bind]
  rcases x.run.run m with ⟨r, m'⟩
  cases r <;> rfl

theorem ends_bind_of_ok {x : Exec β} {f : β → Exec α} {b : β} (h : x.result m = .ok b)
    {Q : Except Stop α → Machine → Prop} : (x >>= f).Ends m Q ↔ (f b).Ends (x.final m) Q := by
  rw [ends_bind, Ends, h]

theorem result_bind {x : Exec β} {f : β → Exec α} : (x >>= f).result m =
    match x.result m with
    | .ok b => (f b).result (x.final m)
    | .error e => .error e := by
  simp only [result, final, ExceptT.run_bind, StateT.run_bind]
  rcases x.run.run m with ⟨r, m'⟩
  cases r <;> rfl

theorem final_bind {x : Exec β} {f : β → Exec α} : (x >>= f).final m =
    match x.result m with
    | .ok b => (f b).final (x.final m)
    | .error _ => x.final m := by
  simp only [result, final, ExceptT.run_bind, StateT.run_bind]
  rcases x.run.run m with ⟨r, m'⟩
  cases r <;> rfl

theorem ofDocument_ok (a : α) : ofDocument (.ok a) = pure a := rfl

theorem located_pure (s : Except Fault Span) (a : α) : located s (pure a) = pure a := rfl

theorem ends_attempt {x : Exec β} {Q : Except Stop (Except Stop β) → Machine → Prop} :
    (attempt x).Ends m Q ↔ x.Ends m fun r m' => Q (.ok r) m' := Iff.rfl

theorem ends_store {Q : Except Stop Store → Machine → Prop} :
    store.Ends m Q ↔ Q (.ok m.store) m := Iff.rfl

theorem ends_newList {elements : Array Value} {Q : Except Stop Value → Machine → Prop} :
    (newList elements).Ends m Q ↔ Q (.ok (Value.unplaced (.list m.store.nextList)))
      { m with store := m.store.addList elements } := Iff.rfl

/-- An action that shows its value's text, or none, leaves the store as it is. -/
theorem ends_text {form : Form} {room : Nat} {v : Value} {Q : Except Stop String → Machine → Prop}
    (hok : ∀ s, Q (.ok s) m) (herr : ∀ o, Q (.error (.ofObstacle o)) m) :
    (text form room v).Ends m Q := by
  rw [text, ends_bind, ends_store]
  dsimp only
  split
  · exact hok _
  · exact herr _

theorem ends_text_of_none {form : Form} {room : Nat} {v : Value}
    {Q : Except Stop String → Machine → Prop} (h : m.store.obstacle? form room v = none)
    (hok : ∀ s, Q (.ok s) m) : (text form room v).Ends m Q := by
  rw [text, ends_bind, ends_store]
  dsimp only
  rw [Store.text?, h]
  exact hok _

/-- The message is left out where the trace does not go down to it, but the text is asked for. -/
theorem ends_noteValue_cases {room level : Nat} {v : Value} {message : String → String}
    {Q : Except Stop Unit → Machine → Prop}
    (hok : m.store.obstacle? .written room v = none → ∀ message, Q (.ok ()) (m.note level message))
    (herr : ∀ o, m.store.obstacle? .written room v = some o → Q (.error (.ofObstacle o)) m) :
    (noteValue room level v message).Ends m Q := by
  rw [noteValue, ends_bind, ends_store]
  dsimp only
  split
  · next h => exact hok h fun _ => message (m.store.textWithin .written room v)
  · next o h => exact herr o h

theorem ends_noteValue {room level : Nat} {v : Value} {message : String → String}
    {Q : Except Stop Unit → Machine → Prop}
    (hok : ∀ message, Q (.ok ()) (m.note level message))
    (herr : ∀ o, Q (.error (.ofObstacle o)) m) :
    (noteValue room level v message).Ends m Q :=
  ends_noteValue_cases (fun _ => hok) fun o _ => herr o

theorem result_noteValue {room level : Nat} {v : Value} {message : String → String} :
    (noteValue room level v message).result m =
      match m.store.obstacle? .written room v with
      | none => .ok ()
      | some o => .error (.ofObstacle o) := by
  refine ends_noteValue_cases (Q := fun r _ => r = _) (fun h _ => ?_) fun o h => ?_
  · rw [h]
  · rw [h]

end Exec

theorem Stop.not_isSignal_ofObstacle (o : Obstacle) : ¬ (Stop.ofObstacle o).IsSignal := by
  cases o <;> exact id

@[simp] theorem Machine.note_store (m : Machine) (level : Nat) (message : Unit → String) :
    (m.note level message).store = m.store := by
  unfold note
  split <;> rfl

theorem Machine.note_untraced (m : Machine) (level : Nat) (message : Unit → String) :
    { m.note level message with trace := m.trace } = m := by
  unfold note
  split <;> rfl

namespace Exec

theorem store_note {level : Nat} {message : Unit → String} {m : Machine} :
    ((note level message).final m).store = m.store := m.note_store level message

theorem store_noteValue {room level : Nat} {v : Value} {message : String → String} {m : Machine} :
    ((noteValue room level v message).final m).store = m.store :=
  ends_noteValue (Q := fun _ m' => m'.store = m.store) (fun _ => m.note_store _ _) fun _ => rfl

end Exec

end Lumen
