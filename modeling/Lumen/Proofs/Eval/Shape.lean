import Lumen.Proofs.Eval.Lists

/-!
# What every evaluation keeps

However an evaluation ends, the store has the scopes and the lists that it had, and the lists have
as many slots. The rules that only read a document or refuse leave the machine as it is.
-/

namespace Lumen

/-- The rule of a node refuses to go on. A fault comes from a document only. -/
def Stop.IsRefusal : Stop → Prop
  | .failure _ | .fault _ => True
  | _ => False

namespace Store

/-- The other store has the scopes and the lists of the first one, and the lists have as many
slots. -/
structure KeepsShape (s s' : Store) : Prop where
  scopes : s.scopes.size ≤ s'.scopes.size
  lists : s.KeepsLengths s'

namespace KeepsShape

variable {s s₁ s₂ s₃ : Store}

theorem refl (s : Store) : s.KeepsShape s := ⟨Nat.le_refl _, .refl s⟩

theorem trans (h₁ : s₁.KeepsShape s₂) (h₂ : s₂.KeepsShape s₃) : s₁.KeepsShape s₃ :=
  ⟨Nat.le_trans h₁.scopes h₂.scopes, h₁.lists.trans h₂.lists⟩

theorem updateTable (s : Store) (c : ScopeId) (f : Bindings → Bindings) :
    s.KeepsShape (s.updateTable c f) :=
  ⟨(KeepsScopes.updateTable s c f).size_le, .updateTable s c f⟩

theorem size_elements (h : s₁.KeepsShape s₂) {l : ListId} (hl : 0 < (s₁.elements l).size) :
    (s₂.elements l).size = (s₁.elements l).size := h.lists.size_elements hl

end KeepsShape

end Store

namespace Exec

variable {α β : Type}

/-- However the action ends, scopes and lists stay, and the lists have as many slots. -/
def KeepsShape (x : Exec α) : Prop := ∀ m : Machine, m.store.KeepsShape (x.final m).store

theorem keepsShape_bindName {c : ScopeId} {name : Scalar} {v : Value} :
    (updateStore (·.bind c name v)).KeepsShape := fun m => .updateTable m.store c _

theorem keepsShape_same {x : Exec α} (h : ∀ m, (x.final m).store = m.store) : x.KeepsShape := by
  intro m
  rw [h m]
  exact .refl m.store

theorem keepsShape_note {level : Nat} {message : Unit → String} :
    (note level message).KeepsShape := keepsShape_same fun _ => store_note

theorem keepsShape_noteValue {room level : Nat} {v : Value} {message : String → String} :
    (noteValue room level v message).KeepsShape := keepsShape_same fun _ => store_noteValue

theorem KeepsShape.bind {x : Exec α} {f : α → Exec β} (hx : x.KeepsShape)
    (hf : ∀ a, (f a).KeepsShape) : (x >>= f).KeepsShape := by
  intro m
  rw [final_bind]
  cases x.result m with
  | ok a => exact (hx m).trans (hf a _)
  | error e => exact hx m

theorem ends_located {s : Except Fault Span} {x : Exec α} {m : Machine}
    {Q : Except Stop α → Machine → Prop}
    (h : x.Ends m fun r m' =>
      match r with
      | .ok a => Q (.ok a) m'
      | .error e => e.IsRefusal ∧ ∀ e', e'.IsRefusal → Q (.error e') m') :
    (located s x).Ends m Q := by
  rw [located, ends_bind, ends_attempt]
  refine h.mono fun r m' hr => ?_
  cases r with
  | ok a => exact hr
  | error e =>
    obtain ⟨he, hQ⟩ := hr
    cases e with
    | failure d =>
      dsimp only
      split
      · cases s with
        | ok span => exact hQ _ trivial
        | error f => exact hQ _ trivial
      · exact hQ _ trivial
    | fault f => exact hQ _ trivial
    | _ => exact he.elim

end Exec

namespace Eval

theorem keepsShape_evaluate (rounds room : Nat) (t : Tree) (c : ScopeId) :
    (evaluate rounds room t c).KeepsShape := by
  intro m
  have hscopes := Invariant.evaluates (frame 0 c fun _ => True) rounds room () t trivial c m
    (holds_frame (Nat.zero_le _) fun _ _ => trivial)
  have hlists := Invariant.evaluates lengths rounds room () t trivial c m
    ⟨trivial, fun _ _ _ _ => trivial⟩
  exact ⟨hscopes.1.size_le, hlists.1⟩

/-! ## Names and refusals -/

section

variable {α : Type} {t n : Tree} {m : Machine} {complaint : Complaint}
  {Q : Except Stop α → Machine → Prop}

theorem ends_nameOf {name : Scalar} {Q : Except Stop Scalar → Machine → Prop}
    (h : t.name = .ok name) (hQ : Q (.ok name) m) : (nameOf t).Ends m Q := by
  rw [nameOf, h]
  exact hQ

theorem ends_lookup {c : ScopeId} {name : Scalar} {v : Value}
    {Q : Except Stop (Option Value) → Machine → Prop} (hname : t.name = .ok name)
    (hv : m.store.lookup c name = some v) (h : (resultAt v n).Ends m Q) :
    (lookup c t n).Ends m Q := by
  rw [lookup, Exec.ends_bind]
  refine ends_nameOf hname ?_
  dsimp only
  rw [Exec.ends_bind, Exec.ends_store]
  dsimp only
  rw [hv]
  exact h

theorem ends_operand_cases {ev : Evaluator} {c : ScopeId} {Q : Except Stop Value → Machine → Prop}
    (herr : ∀ e, (ev t c).result m = .error e → Q (.error e) ((ev t c).final m))
    (hok : ∀ a, (ev t c).result m = .ok a → Q (.ok (Value.orNull a)) ((ev t c).final m)) :
    (operand ev t c).Ends m Q := by
  rw [operand, Exec.ends_bind]
  unfold Exec.Ends
  cases h : (ev t c).result m with
  | ok a => exact hok a h
  | error e => exact herr e h

theorem ends_failAt (h : ∀ e : Stop, e.IsRefusal → Q (.error e) m) :
    (failAt complaint n).Ends m Q := by
  rw [failAt, Exec.ends_bind]
  cases n.span with
  | ok s => exact h _ trivial
  | error f => exact h _ trivial

theorem ends_locatedAt {s : Except Fault Span} (h : ∀ e : Stop, e.IsRefusal → Q (.error e) m) :
    (Exec.located s (failAt complaint n)).Ends m Q :=
  Exec.ends_located (ends_failAt fun _ he => ⟨he, h⟩)

end

end Eval

end Lumen
