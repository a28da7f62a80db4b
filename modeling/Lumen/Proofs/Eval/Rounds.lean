import Lumen.Proofs.Eval.Shape

/-!
# Rounds of a loop

A loop is a row of rounds, each on the machine that the one before has left. It ends with the first
round that does not go on: that round does not start, or breaks the loop, or stops what is around
the loop as well.
-/

namespace Lumen

def Stop.LeavesLoop : Stop → Prop
  | .breakLoop | .continueLoop => False
  | _ => True

theorem Stop.leavesLoop_of_not_isSignal {e : Stop} (h : ¬ e.IsSignal) : e.LeavesLoop := by
  cases e with
  | breakLoop | continueLoop => exact h trivial
  | _ => trivial

namespace Eval

/-! ## One round -/

def GoesOn : Except Stop (Option Value) → Prop
  | .ok _ | .error .continueLoop => True
  | _ => False

/-- A round goes on, breaks the loop or leaves it. -/
theorem ends_goesOn {α : Type} {x : Exec (Option Value)} {f : Bool → Exec α} {m : Machine}
    {Q : Except Stop α → Machine → Prop}
    (hnext : GoesOn (x.result m) → (f true).Ends (x.final m) Q)
    (hbreak : x.result m = .error .breakLoop → (f false).Ends (x.final m) Q)
    (hstop : ∀ e, x.result m = .error e → e.LeavesLoop → Q (.error e) (x.final m)) :
    (goesOn x >>= f).Ends m Q := by
  rw [goesOn, bind_assoc, Exec.ends_bind, Exec.ends_attempt]
  unfold Exec.Ends
  cases hr : x.result m with
  | ok v => exact hnext (hr ▸ trivial)
  | error e =>
    cases e with
    | continueLoop => exact hnext (hr ▸ trivial)
    | breakLoop => exact hbreak hr
    | _ => exact hstop _ hr trivial

/-- What readies a round is part of it, if it sends the loop no signals. -/
theorem ends_readied {α : Type} {y : Exec Unit} {x : Exec (Option Value)} {f : Bool → Exec α}
    {m : Machine} {Q : Except Stop α → Machine → Prop}
    (hy : ∀ e, y.result m = .error e → e.LeavesLoop)
    (hnext : GoesOn ((y >>= fun _ => x).result m) → (f true).Ends ((y >>= fun _ => x).final m) Q)
    (hbreak : (y >>= fun _ => x).result m = .error .breakLoop →
      (f false).Ends ((y >>= fun _ => x).final m) Q)
    (hstop : ∀ e, (y >>= fun _ => x).result m = .error e → e.LeavesLoop →
      Q (.error e) ((y >>= fun _ => x).final m)) :
    (y >>= fun _ => goesOn x >>= f).Ends m Q := by
  rw [Exec.result_bind, Exec.final_bind] at *
  rw [Exec.ends_bind]
  unfold Exec.Ends
  cases hr : y.result m with
  | ok _ =>
    rw [hr] at hnext hbreak hstop
    exact ends_goesOn hnext hbreak hstop
  | error e =>
    rw [hr] at hstop
    exact hstop e rfl (hy e hr)

end Eval

/-! ## Whole loops -/

structure Loop where
  /-- What round `k` needs to start. -/
  test : Nat → Prop
  /-- What round `k` does in front of the body. -/
  ready : Nat → Exec Unit
  body : Exec (Option Value)
  /-- What becomes of the machine when a round does not start. -/
  done : Machine → Machine
  /-- What becomes of it when a round breaks the loop. -/
  broken : Machine → Machine

namespace Loop

open Eval (GoesOn)

variable {α : Type} {L : Loop} {m m' : Machine} {n : Nat} {a b : α} {r : Except Stop α}

def round (L : Loop) (k : Nat) : Exec (Option Value) := do
  L.ready k
  L.body

/-- The machine that the rounds in front of round `k` leave, the first of which finds `m`. -/
def machineAt (L : Loop) (m : Machine) : Nat → Machine
  | 0 => m
  | k + 1 => (L.round k).final (L.machineAt m k)

/-- Round `k` starts, and the next one may follow. -/
structure Passes (L : Loop) (m : Machine) (k : Nat) : Prop where
  test : L.test k
  goesOn : GoesOn ((L.round k).result (L.machineAt m k))

theorem passes_succ {k : Nat} (hk : ∀ j < k, L.Passes m j) (hpasses : L.Passes m k) (j : Nat)
    (hj : j < k + 1) : L.Passes m j := by
  rcases Nat.lt_succ_iff_lt_or_eq.mp hj with hj | rfl
  · exact hk j hj
  · exact hpasses

/-- How a loop ends with round `n`; `a` is its value then. -/
inductive Ends (L : Loop) (m : Machine) (n : Nat) (a : α) : Except Stop α → Machine → Prop
  | done : ¬ L.test n → Ends L m n a (.ok a) (L.done (L.machineAt m n))
  | broken : L.test n → (L.round n).result (L.machineAt m n) = .error .breakLoop →
      Ends L m n a (.ok a) (L.broken (L.machineAt m (n + 1)))
  | stopped {e : Stop} : L.test n → (L.round n).result (L.machineAt m n) = .error e →
      e.LeavesLoop → Ends L m n a (.error e) (L.machineAt m (n + 1))

/-- Round `k` finds the name bound to the value; nothing else in the store has changed since the
round before. -/
def Binds (L : Loop) (m : Machine) (c : ScopeId) (name : Scalar) (k : Nat) (v : Value) : Prop :=
  let started := ((L.ready k).final (L.machineAt m k)).store
  started = (L.machineAt m k).store.bind c name v ∧ started.bound? c name = some v

theorem keepsShape_machineAt (hready : ∀ k, (L.ready k).KeepsShape) (hbody : L.body.KeepsShape)
    (m : Machine) (k : Nat) : m.store.KeepsShape (L.machineAt m k).store := by
  induction k with
  | zero => exact .refl m.store
  | succ k ih => exact ih.trans ((hready k).bind (fun _ => hbody) _)

theorem binds_of_store {c : ScopeId} {name : Scalar} {v : Value} {k : Nat}
    (hstore : ((L.ready k).final (L.machineAt m k)).store = (L.machineAt m k).store.bind c name v)
    (hc : c < (L.machineAt m k).store.scopes.size) : L.Binds m c name k v := by
  refine ⟨hstore, ?_⟩
  rw [hstore, Store.bound?_bind _ _ _ _ _ _ hc, if_pos ⟨rfl, rfl⟩]

/-- A loop that ends has no value, or it is left for good. -/
theorem Ends.leavesLoop (h : L.Ends m n a r m') : r = .ok a ∨ ∃ e, r = .error e ∧ e.LeavesLoop := by
  cases h with
  | done => exact .inl rfl
  | broken => exact .inl rfl
  | stopped _ _ hleaves => exact .inr ⟨_, rfl, hleaves⟩

theorem Ends.eq_done (h : L.Ends m n a r m') (hn : ¬ L.test n) :
    r = .ok a ∧ m' = L.done (L.machineAt m n) := by
  cases h with
  | done => exact ⟨rfl, rfl⟩
  | broken htest => exact absurd htest hn
  | stopped htest => exact absurd htest hn

theorem Ends.done_or_broken (h : L.Ends m n a (.ok b) m') :
    m' = L.done (L.machineAt m n) ∨ m' = L.broken (L.machineAt m (n + 1)) := by
  cases h with
  | done => exact .inl rfl
  | broken => exact .inr rfl

end Loop

end Lumen
