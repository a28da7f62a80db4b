import Lumen.Proofs.Eval.Rounds

/-!
# Counting loops and loops over lists

A counting loop goes by a cursor of its own: its header is evaluated once, and nothing that the body
does to the name or to the header's variables moves the cursor. A loop over a list reads each slot
when its round starts, so it sees what earlier rounds have put there; the number of rounds is the
list's length, which no program can change.
-/

namespace Lumen.Eval

/-- The part evaluates to a value with this payload and leaves the machine `m'`. -/
structure Yields (ev : Evaluator) (t : Tree) (c : ScopeId) (m : Machine) (p : Payload)
    (m' : Machine) : Prop where
  result : ∃ sp, (ev t c).result m = .ok (some ⟨p, sp⟩)
  final : (ev t c).final m = m'

/-- The step of a counting loop is one if there is none, and is not zero. -/
inductive YieldsStep (ev : Evaluator) (step : Tree) (c : ScopeId) (m : Machine) :
    Float → Machine → Prop
  | absent : step.isNull = true → YieldsStep ev step c m 1 m
  | given {x : Float} {m' : Machine} : step.isNull = false →
      Yields ev step c m (.number x) m' → (x == 0) = false → YieldsStep ev step c m x m'

theorem bound?_unbind_self (s : Store) {c : ScopeId} {name : Scalar} :
    (s.unbind c name).bound? c name = none :=
  (s.bound?_unbind c c name name).trans (if_pos ⟨rfl, rfl⟩)

section

variable {ev : Evaluator} {t step n : Tree} {c : ScopeId} {m m' : Machine} {p : Payload} {x : Float}
  {Q : Except Stop Float → Machine → Prop}

theorem Yields.keepsShape (h : Yields ev t c m p m') (hev : (ev t c).KeepsShape) :
    m.store.KeepsShape m'.store := h.final ▸ hev m

theorem YieldsStep.keepsShape (h : YieldsStep ev step c m x m') (hev : (ev step c).KeepsShape) :
    m.store.KeepsShape m'.store := by
  cases h with
  | absent => exact .refl m.store
  | given _ hx => exact hx.keepsShape hev

theorem ends_operand_of_yields {Q : Except Stop Value → Machine → Prop} (h : Yields ev t c m p m')
    (hQ : ∀ sp, Q (.ok ⟨p, sp⟩) m') : (operand ev t c).Ends m Q := by
  obtain ⟨⟨sp, hr⟩, hm⟩ := h
  rw [operand, Exec.ends_bind]
  unfold Exec.Ends
  rw [hr, hm]
  exact hQ sp

theorem ends_bound {word : String} (h : Yields ev t c m (.number x) m') (hQ : Q (.ok x) m') :
    (bound ev c word t).Ends m Q := by
  rw [bound, Exec.ends_bind]
  exact ends_operand_of_yields h fun _ => hQ

theorem ends_stepOf (h : YieldsStep ev step c m x m') (hQ : Q (.ok x) m') :
    (stepOf ev c step n).Ends m Q := by
  unfold stepOf
  cases h with
  | absent hnull =>
    rw [if_pos hnull]
    exact hQ
  | given hnull hx hzero =>
    rw [if_neg (Bool.eq_false_iff.mp hnull), Exec.ends_bind]
    refine ends_bound hx ?_
    dsimp only
    rw [hzero]
    exact hQ

end

/-! ## Counting loops -/

def cursorAt (first step : Float) : Nat → Float
  | 0 => first
  | k + 1 => cursorAt first step k + step

/-- A counting loop binds its name to the cursor in front of each round. -/
def bindCursor (c : ScopeId) (name : Scalar) (x : Float) : Exec Unit := do
  Exec.updateStore (·.bind c name (Value.number x))
  Exec.note 3 fun _ => "for: " ++ name.display ++ " = " ++ Decimal.floatText x

def countingLoop (ev : Evaluator) (c : ScopeId) (name : Scalar) (first last step : Float)
    (body : Tree) : Loop where
  test k :=
    if step > 0 then cursorAt first step k ≤ last else cursorAt first step k ≥ last
  ready k := bindCursor c name (cursorAt first step k)
  body := ev body c
  done m := { m with store := m.store.unbind c name }
  broken m := m

section

variable {ev : Evaluator} {c : ScopeId} {name : Scalar} {first last step : Float} {body : Tree}
  {m : Machine} {fuel k : Nat}

theorem withinBound_iff {cursor : Float} : withinBound cursor last step = true ↔
    if step > 0 then cursor ≤ last else cursor ≥ last := by
  unfold withinBound
  split <;> exact decide_eq_true_iff

theorem countRounds_succ {cursor : Float} :
    countRounds ev c name last step body (fuel + 1) cursor =
      if withinBound cursor last step then
        bindCursor c name cursor >>= fun _ => goesOn (ev body c) >>= fun again =>
          if again then countRounds ev c name last step body fuel (cursor + step) else return ()
      else Exec.updateStore (·.unbind c name) := by
  rw [countRounds]
  split <;> rfl

theorem keepsShape_bindCursor {x : Float} : (bindCursor c name x).KeepsShape :=
  Exec.keepsShape_bindName.bind fun _ => Exec.keepsShape_note

theorem result_bindCursor {x : Float} : (bindCursor c name x).result m = .ok () := rfl

theorem store_bindCursor {x : Float} :
    ((bindCursor c name x).final m).store = m.store.bind c name (Value.number x) := by
  rw [bindCursor, Exec.final_bind]
  exact Exec.store_note

/-- From round `k` on, there is a round with which the loop ends, unless more are to follow than
there may be. -/
theorem ends_countRounds (hk : ∀ j < k, (countingLoop ev c name first last step body).Passes m j) :
    let L := countingLoop ev c name first last step body
    (countRounds ev c name last step body fuel (cursorAt first step k)).Ends (L.machineAt m k)
      fun r m' => ∃ n ≤ k + fuel, (∀ j < n, L.Passes m j) ∧
        (L.Ends m n () r m' ∨ n = k + fuel ∧ r = .error .endless ∧ m' = L.machineAt m n) := by
  intro L
  -- The fuel that is left and the number of rounds add up, and the cursor is the one of round `k`.
  induction fuel generalizing k with
  | zero => exact ⟨k, Nat.le_refl _, hk, .inr ⟨rfl, rfl, rfl⟩⟩
  | succ fuel ih =>
    rw [countRounds_succ]
    split
    · next hwithin =>
      have htest : L.test k := withinBound_iff.mp hwithin
      refine ends_readied (fun e he => nomatch result_bindCursor.symm.trans he) (fun hgoes => ?_)
        (fun hbreak => ?_) fun e he hleaves => ?_
      · have h := ih (L.passes_succ hk ⟨htest, hgoes⟩)
        rw [Nat.add_right_comm, Nat.add_assoc] at h
        exact h
      · exact ⟨k, Nat.le_add_right _ _, hk, .inl (.broken htest hbreak)⟩
      · exact ⟨k, Nat.le_add_right _ _, hk, .inl (.stopped htest he hleaves)⟩
    · next hwithin =>
      exact ⟨k, Nat.le_add_right _ _, hk, .inl (.done (mt withinBound_iff.mpr hwithin))⟩

/-- The rounds of a counting loop behind its header. -/
theorem ends_forLoop {rounds : Nat} {t first last step body n : Tree} {x y s : Float}
    {m₁ m₂ m₃ : Machine} (hname : t.name = .ok name) (hfirst : Yields ev first c m (.number x) m₁)
    (hlast : Yields ev last c m₁ (.number y) m₂) (hstep : YieldsStep ev step c m₂ s m₃) :
    let L := countingLoop ev c name x y s body
    (forLoop rounds ev c t first last step body n).Ends m fun r m' =>
      ∃ n ≤ rounds, (∀ k < n, L.Passes m₃ k) ∧
        (L.Ends m₃ n none r m' ∨ n = rounds ∧ r = .error .endless ∧ m' = L.machineAt m₃ n) := by
  intro L
  rw [forLoop, Exec.ends_bind]
  refine ends_bound hfirst ?_
  dsimp only
  rw [Exec.ends_bind]
  refine ends_bound hlast ?_
  dsimp only
  rw [Exec.ends_bind]
  refine ends_stepOf hstep ?_
  dsimp only
  rw [Exec.ends_bind]
  refine ends_nameOf hname ?_
  dsimp only
  rw [Exec.ends_bind]
  have hrounds : (countRounds ev c name y s body rounds x).Ends m₃ fun r m' =>
      ∃ n ≤ 0 + rounds, (∀ j < n, L.Passes m₃ j) ∧
        (L.Ends m₃ n () r m' ∨ n = 0 + rounds ∧ r = .error .endless ∧ m' = L.machineAt m₃ n) :=
    ends_countRounds (k := 0) fun j hj => absurd hj (Nat.not_lt_zero j)
  rw [Nat.zero_add] at hrounds
  refine hrounds.mono ?_
  rintro r m' ⟨n, hn, hpasses, hends | ⟨rfl, rfl, rfl⟩⟩
  · cases hends with
    | done htest => exact ⟨n, hn, hpasses, .inl (.done htest)⟩
    | broken htest hr => exact ⟨n, hn, hpasses, .inl (.broken htest hr)⟩
    | stopped htest hr hleaves => exact ⟨n, hn, hpasses, .inl (.stopped htest hr hleaves)⟩
  · exact ⟨n, hn, hpasses, .inr ⟨rfl, rfl, rfl⟩⟩

/-- A counting loop whose header has been evaluated: the rounds go by the cursor, which starts at
the first value and grows by the step whatever the rounds in front have done to the name, and the
name is unbound if the cursor has passed the last value. -/
theorem evaluate_forLoop {rounds room : Nat} {t first last step : Tree} (body p q : Tree)
    {x y s : Float} {m₁ m₂ m₃ : Machine} (hc : c < m.store.scopes.size) (hname : t.name = .ok name)
    (hfirst : Yields (evaluate rounds room) first c m (.number x) m₁)
    (hlast : Yields (evaluate rounds room) last c m₁ (.number y) m₂)
    (hstep : YieldsStep (evaluate rounds room) step c m₂ s m₃) :
    let L := countingLoop (evaluate rounds room) c name x y s body
    let loop := evaluate rounds (room + 1) (.node .forLoop [t, first, last, step, body, p, q]) c
    ∃ n ≤ rounds,
      (∀ k < n, L.Passes m₃ k) ∧
      (∀ k ≤ n, L.Binds m₃ c name k (Value.number (cursorAt x s k))) ∧
      (L.Ends m₃ n none (loop.result m) (loop.final m) ∨
        n = rounds ∧ loop.result m = .error .endless ∧ loop.final m = L.machineAt m₃ n) ∧
      (loop.result m = .ok none → ¬ L.test n → (loop.final m).store.bound? c name = none) ∧
      (loop.result m = .ok none ∨ ∃ e, loop.result m = .error e ∧ e.LeavesLoop) := by
  intro L loop
  have hev (t : Tree) := keepsShape_evaluate rounds room t c
  have hheader := ((hfirst.keepsShape (hev first)).trans (hlast.keepsShape (hev last))).trans
    (hstep.keepsShape (hev step))
  have hsize (k : Nat) : c < (L.machineAt m₃ k).store.scopes.size :=
    have hrounds := L.keepsShape_machineAt (fun _ => keepsShape_bindCursor) (hev body) m₃ k
    Nat.lt_of_lt_of_le hc (hheader.trans hrounds).scopes
  have hloop : loop.Ends m fun r m' => ∃ n ≤ rounds, (∀ k < n, L.Passes m₃ k) ∧
      (L.Ends m₃ n none r m' ∨ n = rounds ∧ r = .error .endless ∧ m' = L.machineAt m₃ n) :=
    ends_forLoop hname hfirst hlast hstep
  obtain ⟨n, hn, hpasses, hends⟩ := hloop
  refine ⟨n, hn, hpasses, fun k _ => L.binds_of_store store_bindCursor (hsize k), hends, ?_, ?_⟩
  · intro hok htest
    rcases hends with hends | ⟨-, herr, -⟩
    · have hm : loop.final m = L.done (L.machineAt m₃ n) := (hends.eq_done htest).2
      rw [hm]
      exact bound?_unbind_self _
    · exact nomatch hok.symm.trans herr
  · rcases hends with hends | ⟨-, herr, -⟩
    · exact hends.leavesLoop
    · exact .inr ⟨_, herr, trivial⟩

/-- `for i = 1 : 2` with a body that puts null where the cursor was. -/
theorem evaluate_forLoop_rebound :
    let first : Position := ⟨"f", 1, 1, 0⟩
    let next : Position := ⟨"f", 1, 2, 1⟩
    let i : Token := ⟨.identifier, .text "i", first, next⟩
    let one := Tree.ofNode (.number ⟨.number, .float 1, first, next⟩)
    let two := Tree.ofNode (.number ⟨.number, .float 2, first, next⟩)
    let body := Tree.ofNode (.assign i (.null ⟨.keyword, .text "null", first, next⟩))
    let m := Machine.initial "" 0
    let L := countingLoop (evaluate 8 4) Store.root (.text "i") 1 2 1 body
    let loop := evaluate 8 5 (.node .forLoop [Tree.ofToken i, one, two, .scalar .null, body,
      Tree.ofPosition first, Tree.ofPosition next]) Store.root
    Yields (evaluate 8 4) one Store.root m (.number 1) m ∧
      Yields (evaluate 8 4) two Store.root m (.number 2) m ∧
      ∃ n ≤ 8,
        (∀ k < n, L.Passes m k) ∧
        (∀ k ≤ n, L.Binds m Store.root (.text "i") k (Value.number (cursorAt 1 1 k))) ∧
        (L.Ends m n none (loop.result m) (loop.final m) ∨
          n = 8 ∧ loop.result m = .error .endless ∧ loop.final m = L.machineAt m n) := by
  intro first next i one two body m L loop
  have hone : Yields (evaluate 8 4) one Store.root m (.number 1) m := ⟨⟨_, rfl⟩, rfl⟩
  have htwo : Yields (evaluate 8 4) two Store.root m (.number 2) m := ⟨⟨_, rfl⟩, rfl⟩
  have hstep : YieldsStep (evaluate 8 4) (.scalar .null) Store.root m 1 m := .absent rfl
  have hroot : Store.root < m.store.scopes.size := Nat.zero_lt_one
  obtain ⟨n, hn, hpasses, hbinds, hends, -⟩ :=
    evaluate_forLoop body (Tree.ofPosition first) (Tree.ofPosition next) hroot
      (t := Tree.ofToken i) rfl hone htwo hstep
  exact ⟨hone, htwo, n, hn, hpasses, hbinds, hends⟩

end

/-! ## Loops over lists -/

/-- A loop over a list binds its name to what slot `k` holds when round `k` starts. -/
def bindElement (room : Nat) (c : ScopeId) (name : Scalar) (l : ListId) (k : Nat) : Exec Unit := do
  let v := ((← Exec.store).elements l).getD k Value.null
  Exec.updateStore (·.bind c name v)
  Exec.noteValue room 3 v fun text => "each: " ++ name.display ++ " = " ++ text

def elementLoop (ev : Evaluator) (room : Nat) (c : ScopeId) (name : Scalar) (l : ListId)
    (length : Nat) (body : Tree) : Loop where
  test k := k < length
  ready := bindElement room c name l
  body := ev body c
  done m := { m with store := m.store.unbind c name }
  broken m := { m with store := m.store.unbind c name }

def leaveElements (c : ScopeId) (name : Scalar) : Exec (Option Value) := do
  Exec.updateStore (·.unbind c name)
  return none

def eachRest (room : Nat) (ev : Evaluator) (c : ScopeId) (name : Scalar) (l : ListId) (body : Tree)
    (fuel k : Nat) : Exec (Option Value) := do
  eachRounds room ev c name l body fuel k
  leaveElements c name

section

variable {ev : Evaluator} {room : Nat} {c : ScopeId} {name : Scalar} {l : ListId} {body : Tree}
  {m : Machine} {fuel k length : Nat}

/-- Without its slot no round starts. -/
theorem ends_eachRounds_of_none {Q : Except Stop Unit → Machine → Prop}
    (h : (m.store.elements l)[k]? = none) :
    (eachRounds room ev c name l body (fuel + 1) k).Ends m Q ↔ Q (.ok ()) m := by
  rw [eachRounds, Exec.ends_bind, Exec.ends_store]
  dsimp only
  rw [h]
  exact Iff.rfl

theorem ends_eachRounds_of_some {v : Value} {Q : Except Stop Unit → Machine → Prop}
    (h : (m.store.elements l)[k]? = some v) :
    (eachRounds room ev c name l body (fuel + 1) k).Ends m Q ↔
      (bindElement room c name l k >>= fun _ => goesOn (ev body c) >>= fun again =>
        if again then eachRounds room ev c name l body fuel (k + 1) else return ()).Ends m Q := by
  rw [eachRounds, bindElement, bind_assoc, Exec.ends_bind, Exec.ends_store, Exec.ends_bind,
    Exec.ends_store]
  dsimp only
  rw [h, Array.getD_eq_getD_getElem?, h, Option.getD_some, bind_assoc]

theorem ends_eachRest_of_some {v : Value} {Q : Except Stop (Option Value) → Machine → Prop}
    (h : (m.store.elements l)[k]? = some v)
    (hQ : (bindElement room c name l k >>= fun _ => goesOn (ev body c) >>= fun again =>
      if again then eachRest room ev c name l body fuel (k + 1)
      else leaveElements c name).Ends m Q) :
    (eachRest room ev c name l body (fuel + 1) k).Ends m Q := by
  have hrest (again : Bool) :
      ((if again then eachRounds room ev c name l body fuel (k + 1) else return ()) >>= fun _ =>
        leaveElements c name) =
      if again then eachRest room ev c name l body fuel (k + 1) else leaveElements c name := by
    cases again <;> rfl
  rw [eachRest, Exec.ends_bind, ends_eachRounds_of_some h, ← Exec.ends_bind]
  simp only [bind_assoc, hrest]
  exact hQ

theorem keepsShape_bindElement : (bindElement room c name l k).KeepsShape :=
  (Exec.keepsShape_same fun _ => rfl).bind fun _ =>
    Exec.keepsShape_bindName.bind fun _ => Exec.keepsShape_noteValue

/-- The slot's value is bound even where there is no room for its text. -/
theorem store_bindElement : ((bindElement room c name l k).final m).store =
    m.store.bind c name ((m.store.elements l).getD k Value.null) := by
  rw [bindElement, Exec.final_bind]
  exact Exec.store_noteValue

theorem result_bindElement : (bindElement room c name l k).result m =
    match (m.store.bind c name ((m.store.elements l).getD k Value.null)).obstacle? .written room
      ((m.store.elements l).getD k Value.null) with
    | none => .ok ()
    | some o => .error (.ofObstacle o) := by
  rw [bindElement, Exec.result_bind]
  exact Exec.result_noteValue

/-- A round's value may have no text, for want of room or because a document holds something else
in its place; no signal of the loop comes from there. -/
theorem leavesLoop_bindElement {e : Stop} (h : (bindElement room c name l k).result m = .error e) :
    e.LeavesLoop := by
  rw [result_bindElement] at h
  split at h
  · exact nomatch h
  · next o _ =>
    obtain rfl : Stop.ofObstacle o = e := Except.error.inj h
    exact Stop.leavesLoop_of_not_isSignal (Stop.not_isSignal_ofObstacle o)

/-- However far the loop has come, the list has as many slots as at its start. -/
theorem size_slots (hbody : (ev body c).KeepsShape) (hlength : (m.store.elements l).size = length)
    (hk : k ≤ length) :
    let L := elementLoop ev room c name l length body
    ((L.machineAt m k).store.elements l).size = length := by
  intro L
  cases k with
  | zero => exact hlength
  | succ k =>
    have hshape := L.keepsShape_machineAt (fun _ => keepsShape_bindElement) hbody m (k + 1)
    exact (hshape.size_elements (hlength ▸ Nat.zero_lt_of_lt hk)).trans hlength

/-- From round `k` on, there is a round with which the loop ends. The fuel is for one round more
than the list has slots. -/
theorem ends_eachRest (hbody : (ev body c).KeepsShape)
    (hlength : (m.store.elements l).size = length) (hk : k ≤ length) (hfuel : length < k + fuel)
    (hpasses : ∀ j < k, (elementLoop ev room c name l length body).Passes m j) :
    let L := elementLoop ev room c name l length body
    (eachRest room ev c name l body fuel k).Ends (L.machineAt m k) fun r m' =>
      ∃ n ≤ length, (∀ j < n, L.Passes m j) ∧ L.Ends m n none r m' := by
  intro L
  induction fuel generalizing k with
  | zero => omega
  | succ fuel ih =>
    have hsize : ((L.machineAt m k).store.elements l).size = length := size_slots hbody hlength hk
    by_cases htest : L.test k
    · have hslot : k < ((L.machineAt m k).store.elements l).size := hsize ▸ htest
      refine ends_eachRest_of_some (Array.getElem?_eq_getElem hslot) ?_
      refine ends_readied (fun e he => leavesLoop_bindElement he) (fun hgoes => ?_)
        (fun hbreak => ?_) fun e he hleaves => ?_
      · exact ih htest (by omega) (L.passes_succ hpasses ⟨htest, hgoes⟩)
      · exact ⟨k, hk, hpasses, .broken htest hbreak⟩
      · exact ⟨k, hk, hpasses, .stopped htest he hleaves⟩
    · have hslot : ((L.machineAt m k).store.elements l)[k]? = none :=
        Array.getElem?_eq_none (hsize ▸ Nat.le_of_not_lt htest)
      rw [eachRest, Exec.ends_bind, ends_eachRounds_of_none hslot]
      exact ⟨k, hk, hpasses, .done htest⟩

/-- The rounds of a loop over a list behind its header. -/
theorem ends_eachLoop {rounds : Nat} {t iterable n : Tree} {m₁ : Machine}
    (hbody : (ev body c).KeepsShape) (hname : t.name = .ok name)
    (hlist : Yields ev iterable c m (.list l) m₁) :
    let length := (m₁.store.elements l).size
    let L := elementLoop ev room c name l length body
    (eachLoop rounds room ev c t iterable body n).Ends m fun r m' =>
      ∃ n ≤ length, (∀ k < n, L.Passes m₁ k) ∧ L.Ends m₁ n none r m' := by
  intro length L
  have hfuel : length < 0 + (rounds + length + 1) := by omega
  have hrest : (eachRest room ev c name l body (rounds + length + 1) 0).Ends m₁ fun r m' =>
      ∃ n ≤ length, (∀ k < n, L.Passes m₁ k) ∧ L.Ends m₁ n none r m' :=
    ends_eachRest hbody rfl (Nat.zero_le _) hfuel fun j hj => absurd hj (Nat.not_lt_zero j)
  rw [eachLoop, Exec.ends_bind]
  refine ends_operand_of_yields hlist fun sp => ?_
  dsimp only
  rw [Exec.ends_bind]
  refine ends_nameOf hname ?_
  dsimp only
  rw [Exec.ends_bind, Exec.ends_store]
  exact hrest

/-- A loop over a list whose header has been evaluated: there is a round for each slot, which finds
the name bound to what the slot holds when the round starts, whatever the rounds in front have done
to the name or to the list. The name is unbound behind the last round and behind a broken one. -/
theorem evaluate_eachLoop {rounds : Nat} {t iterable : Tree} (body p q : Tree) {m₁ : Machine}
    (hc : c < m.store.scopes.size) (hname : t.name = .ok name)
    (hlist : Yields (evaluate rounds room) iterable c m (.list l) m₁) :
    let length := (m₁.store.elements l).size
    let L := elementLoop (evaluate rounds room) room c name l length body
    let loop := evaluate rounds (room + 1) (.node .eachLoop [t, iterable, body, p, q]) c
    ∃ n ≤ length,
      (∀ k < n, L.Passes m₁ k) ∧
      (∀ k ≤ n, k < length → ∃ v, ((L.machineAt m₁ k).store.elements l)[k]? = some v ∧
        L.Binds m₁ c name k v ∧
        ((L.ready k).result (L.machineAt m₁ k) = .ok () ∨
          ∃ o, ((L.machineAt m₁ k).store.bind c name v).obstacle? .written room v = some o ∧
            (L.ready k).result (L.machineAt m₁ k) = .error (.ofObstacle o))) ∧
      L.Ends m₁ n none (loop.result m) (loop.final m) ∧
      (loop.result m = .ok none → (loop.final m).store.bound? c name = none) := by
  intro length L loop
  have hev (t : Tree) := keepsShape_evaluate rounds room t c
  have hrounds := L.keepsShape_machineAt (fun _ => keepsShape_bindElement) (hev body) m₁
  have hsize (k : Nat) : c < (L.machineAt m₁ k).store.scopes.size :=
    Nat.lt_of_lt_of_le hc ((hlist.keepsShape (hev iterable)).trans (hrounds k)).scopes
  have hloop : loop.Ends m fun r m' =>
      ∃ n ≤ length, (∀ k < n, L.Passes m₁ k) ∧ L.Ends m₁ n none r m' :=
    ends_eachLoop (hev body) hname hlist
  obtain ⟨n, hn, hpasses, hends⟩ := hloop
  refine ⟨n, hn, hpasses, fun k _ hk => ?_, hends, fun hok => ?_⟩
  · -- The slot is still there: no evaluation changes the length of a list.
    have hslots := (hrounds k).size_elements (Nat.zero_lt_of_lt hk)
    have hslot : k < ((L.machineAt m₁ k).store.elements l).size := hslots ▸ hk
    have hv : ((L.machineAt m₁ k).store.elements l).getD k Value.null =
        ((L.machineAt m₁ k).store.elements l)[k] := by
      rw [Array.getD_eq_getD_getElem?, Array.getElem?_eq_getElem hslot, Option.getD_some]
    have hstore : ((L.ready k).final (L.machineAt m₁ k)).store = _ := store_bindElement
    have hready : (L.ready k).result (L.machineAt m₁ k) = _ := result_bindElement
    rw [hv] at hstore hready
    refine ⟨_, Array.getElem?_eq_getElem hslot, L.binds_of_store hstore (hsize k), ?_⟩
    split at hready
    · exact .inl hready
    · next o ho => exact .inr ⟨o, ho, hready⟩
  · have hclosed : L.Ends m₁ n none (loop.result m) (loop.final m) := hends
    rw [hok] at hclosed
    rcases hclosed.done_or_broken with hm | hm
    · rw [hm]
      exact bound?_unbind_self _
    · rw [hm]
      exact bound?_unbind_self _

/-- `each x : [1, 1]` with a body that puts null where the element was. -/
theorem evaluate_eachLoop_rebound :
    let first : Position := ⟨"f", 1, 1, 0⟩
    let next : Position := ⟨"f", 1, 2, 1⟩
    let x : Token := ⟨.identifier, .text "x", first, next⟩
    let one : Node := .number ⟨.number, .float 1, first, next⟩
    let iterable := Tree.ofNode (.list [one, one] first next)
    let body := Tree.ofNode (.assign x (.null ⟨.keyword, .text "null", first, next⟩))
    let m := Machine.initial "" 0
    let m₁ := (evaluate 8 4 iterable Store.root).final m
    let L := elementLoop (evaluate 8 4) 4 Store.root (.text "x") 0 2 body
    let loop := evaluate 8 5 (.node .eachLoop [Tree.ofToken x, iterable, body,
      Tree.ofPosition first, Tree.ofPosition next]) Store.root
    Yields (evaluate 8 4) iterable Store.root m (.list 0) m₁ ∧ (m₁.store.elements 0).size = 2 ∧
      ∃ n ≤ 2, (∀ k < n, L.Passes m₁ k) ∧ L.Ends m₁ n none (loop.result m) (loop.final m) := by
  intro first next x one iterable body m m₁ L loop
  have hlist : Yields (evaluate 8 4) iterable Store.root m (.list 0) m₁ := ⟨⟨_, rfl⟩, rfl⟩
  have hroot : Store.root < m.store.scopes.size := Nat.zero_lt_one
  obtain ⟨n, hn, hpasses, -, hends, -⟩ :=
    evaluate_eachLoop body (Tree.ofPosition first) (Tree.ofPosition next) hroot
      (t := Tree.ofToken x) rfl hlist
  exact ⟨hlist, rfl, n, hn, hpasses, hends⟩

end

end Lumen.Eval
