import Mathlib.Order.Filter.AtTopBot.Basic
import Lumen.Proofs.Eval.Lists
import Lumen.Proofs.Eval.Loops
import Lumen.Proofs.Operation.Timely

/-!
# Loops over lists end

A loop over a list looks before each round whether the list still has another slot, so it would go
on for ever over a list that grew. No list grows: where a program has no other loops and neither
makes nor finds a function, some number of rounds is enough for all of its loops, whatever they do
to the lists that they go over. Its evaluation then ends in the same way with any larger number,
and not because rounds run out.
-/

namespace Lumen.Eval

open Filter

/-! ## Loops that look at the list -/

section

variable (spent : Exec Unit) (rounds room : Nat) (ev : Evaluator)

/-- Rounds over the elements of a list from slot `i` on. Each starts only if the list still has its
slot. `fuel` bounds their number, and `spent` is what comes when it is used up. -/
def liveRounds (c : ScopeId) (name : Scalar) (l : ListId) (body : Tree) :
    (fuel i : Nat) → Exec Unit
  | 0, _ => spent
  | fuel + 1, i => do
    if i < ((← Exec.store).elements l).size then
      bindElement room c name l i
      if ← goesOn (ev body c) then liveRounds c name l body fuel (i + 1)

def liveLoop (c : ScopeId) (t iterable body n : Tree) : Exec (Option Value) := do
  let v ← operand ev iterable c
  match v.payload with
  | .list l =>
    let name ← nameOf t
    liveRounds spent room ev c name l body rounds 0
    Exec.updateStore (·.unbind c name)
    return none
  | _ => Exec.located n.span (failAt .notIterable iterable)

def liveStep (n : Tree) (c : ScopeId) : Exec (Option Value) :=
  match n with
  | .node .eachLoop [t, iterable, body, _, _] => liveLoop spent rounds room ev c t iterable body n
  | n => step rounds room ev n c

end

/-- Evaluates as `evaluate` does, with loops over lists that look at the list before each round. -/
def live (spent : Exec Unit) (rounds : Nat) : (room : Nat) → Evaluator
  | 0 => fun _ _ => throw .exhausted
  | room + 1 => liveStep spent rounds room (live spent rounds room)

/-! ## Programs without other loops -/

/-- A loop that need not end, or a function, which may call itself. -/
def IsUnbounded : Tree → Prop
  | .node .forLoop _ | .node .whileLoop _ | .node .function _ => True
  | _ => False

/-- Nothing that is evaluated with the part may go round by itself, but loops over lists. -/
def Finitary (t : Tree) : Prop := ∀ u, Within t u → ¬ IsUnbounded u

theorem Finitary.inner {t u : Tree} {w : Way} (h : Finitary t) (hu : Inner t w u) : Finitary u :=
  fun v hv => h v (.head ⟨w, hu⟩ hv)

theorem finitary_of_inner {t : Tree} (ht : ¬ IsUnbounded t)
    (h : ∀ w u, Inner t w u → Finitary u) : Finitary t := by
  intro u hu
  rcases hu.cases_head with rfl | ⟨v, ⟨w, hv⟩, hrest⟩
  · exact ht
  · exact h w v hv u hrest

def HasNoFunction (s : Store) : Prop := ∀ v, s.Holds v → ∀ f, v.payload ≠ .function f

def finitary : Invariant where
  Place := Bool
  loopBody := id
  functionBody := false
  Part p t := p = true ∧ Finitary t
  Open _ _ := True
  Fits _ _ := False
  Leads _ := Store.KeepsLengths
  Breaks _ := True
  Returns _ := True
  part_inner := by
    rintro p t w u ⟨rfl, ht⟩ hu
    cases w with
    | here => exact ⟨rfl, ht.inner hu⟩
    | loopBody => exact ⟨rfl, ht.inner hu⟩
    | functionBody =>
      cases hu
      exact (ht _ .refl trivial).elim
  breaks_of_break _ := trivial
  breaks_of_continue _ := trivial
  returns_of_giveBack _ := trivial
  returns_of_loopBody _ := trivial
  fits_function _ h := (Bool.false_ne_true h.1).elim
  part_of_fits h := h.elim
  leads_refl _ := Store.KeepsLengths.refl
  leads_trans := Store.KeepsLengths.trans
  fits_mono _ h := h
  open_mono _ _ := trivial
  leads_bind _ _ _ := Store.KeepsLengths.bind _ _ _ _
  leads_unbind _ _ := Store.KeepsLengths.unbind _ _ _
  leads_addList _ _ _ := Store.KeepsLengths.addList _ _
  leads_setElement _ _ _ _ _ _ := Store.KeepsLengths.setElement _ _ _ _
  open_call _ _ := trivial
  fits_call _ _ h := h
  leads_call _ h := h.elim

theorem holds_finitary {m : Machine} (c : ScopeId) (h : HasNoFunction m.store) :
    finitary.Holds c m.store := ⟨trivial, fun v hv f hf => h v hv f hf⟩

/-! ## Actions that settle -/

variable {α β : Type}

/-- From some number of rounds on the actions do what the one action does, whatever comes when
rounds run out. That action does not end because they do. -/
structure Settles (m : Machine) (X : Exec Unit → Nat → Exec α) (y : Exec α) : Prop where
  isTimely : IsTimely (y.result m)
  agrees : ∀ᶠ rounds in atTop, ∀ spent,
    (X spent rounds).result m = y.result m ∧ (X spent rounds).final m = y.final m

namespace Settles

variable {m : Machine} {X : Exec Unit → Nat → Exec α} {y : Exec α}

theorem same (h : y.Timely) : Settles m (fun _ _ => y) y :=
  ⟨h m, .of_forall fun _ _ => ⟨rfl, rfl⟩⟩

/-- Only the way that the one action ends matters. -/
theorem congr {y' : Exec α} (h : Settles m X y)
    (hends : y'.Ends m fun r m' => r = y.result m ∧ m' = y.final m) : Settles m X y' := by
  obtain ⟨hresult, hfinal⟩ : y'.result m = y.result m ∧ y'.final m = y.final m := hends
  obtain ⟨htimely, hagrees⟩ := h
  rw [← hresult] at htimely
  rw [← hresult, ← hfinal] at hagrees
  exact ⟨htimely, hagrees⟩

theorem of_eventually {X' : Exec Unit → Nat → Exec α} (h : Settles m X' y)
    (heq : ∀ᶠ rounds in atTop, ∀ spent, X spent rounds = X' spent rounds) : Settles m X y := by
  refine ⟨h.isTimely, ?_⟩
  filter_upwards [h.agrees, heq] with rounds hagrees heq spent
  rw [heq]
  exact hagrees spent

theorem bind' {X : Exec Unit → Nat → Exec β} {y : Exec β} {F : Exec Unit → Nat → β → Exec α}
    {f : β → Exec α} (hx : Settles m X y)
    (hf : ∀ b, y.result m = .ok b →
      Settles (y.final m) (fun spent rounds => F spent rounds b) (f b)) :
    Settles m (fun spent rounds => X spent rounds >>= F spent rounds) (y >>= f) := by
  have htimely := hx.isTimely
  cases hr : y.result m with
  | ok b =>
    have hb := hf b hr
    refine ⟨?_, ?_⟩
    · rw [Exec.result_bind, hr]
      exact hb.isTimely
    · filter_upwards [hx.agrees, hb.agrees] with rounds hfirst hrest spent
      obtain ⟨hresult, hfinal⟩ := hfirst spent
      rw [Exec.result_bind, Exec.result_bind, Exec.final_bind, Exec.final_bind, hresult, hfinal, hr]
      exact hrest spent
  | error e =>
    rw [hr] at htimely
    refine ⟨?_, ?_⟩
    · rw [Exec.result_bind, hr]
      cases e <;> exact htimely
    · filter_upwards [hx.agrees] with rounds hfirst spent
      obtain ⟨hresult, hfinal⟩ := hfirst spent
      rw [Exec.result_bind, Exec.result_bind, Exec.final_bind, Exec.final_bind, hresult, hfinal, hr]
      exact ⟨rfl, rfl⟩

/-- What follows starts where the one action led. -/
theorem bind {X : Exec Unit → Nat → Exec β} {y : Exec β} {F : Exec Unit → Nat → β → Exec α}
    {f : β → Exec α} {c : ScopeId} {P : Store → β → Prop} (hx : Settles m X y)
    (hk : finitary.Keeps true c m y P) (h : finitary.Holds c m.store)
    (hf : ∀ b m', m.store.KeepsLengths m'.store → finitary.Holds c m'.store → P m'.store b →
      Settles m' (fun spent rounds => F spent rounds b) (f b)) :
    Settles m (fun spent rounds => X spent rounds >>= F spent rounds) (y >>= f) := by
  refine hx.bind' fun b hb => ?_
  obtain ⟨hlengths, hsound, hresult⟩ := hk
  rw [hb] at hresult
  exact hf b _ hlengths (h.next hlengths hsound) hresult

/-- What follows uses no rounds. -/
theorem andThen {X : Exec Unit → Nat → Exec β} {y : Exec β} {f : β → Exec α} (hx : Settles m X y)
    (hf : ∀ b, (f b).Timely) :
    Settles m (fun spent rounds => X spent rounds >>= f) (y >>= f) :=
  hx.bind' fun b _ => same (hf b)

end Settles

/-! ## Steps without rounds -/

section

variable {room : Nat} {c : ScopeId} {t n : Tree} {v : Value}

theorem timely_nameOf : (nameOf t).Timely := Exec.timely_ofDocument

theorem timely_failAt {complaint : Complaint} : (failAt complaint n : Exec α).Timely :=
  Exec.timely_ofDocument.bind fun _ => Exec.timely_fail

theorem timely_placed {p : Payload} : (placed p n).Timely :=
  Exec.timely_ofDocument.bind fun _ => Exec.timely_pure

theorem timely_resultAt : (resultAt v n).Timely :=
  Exec.timely_ofDocument.bind fun s =>
    (Exec.timely_ofExcept (Value.isTimely_copyTo v s)).bind fun _ => Exec.timely_pure

theorem timely_numberLiteral : (numberLiteral t n).Timely :=
  Exec.timely_ofDocument.bind fun _ => Exec.timely_ofDocument.bind fun _ => timely_placed

theorem timely_textLiteral : (textLiteral t n).Timely := by
  refine Exec.timely_ofDocument.bind fun j => ?_
  split
  · exact timely_placed
  · exact timely_placed

theorem timely_lookup : (lookup c t n).Timely := by
  refine timely_nameOf.bind fun name => Exec.timely_store.bind fun s => ?_
  split
  · exact timely_placed
  · exact timely_resultAt

theorem timely_signed {sign : Json} : (signed sign v).Timely := by
  unfold signed
  split
  · exact (Operator.timely_apply _ v _).ite (Exec.timely_ofDocument.ite Exec.timely_pure)
  · exact Exec.timely_pure

theorem timely_bindElement {name : Scalar} {l : ListId} {i : Nat} :
    (bindElement room c name l i).Timely :=
  Exec.timely_store.bind fun _ => Exec.timely_updateStore.bind fun _ => Exec.timely_noteValue

end

/-! ## The rules settle -/

/-- The evaluators settle on the part, and the one evaluator keeps what that needs. -/
structure Agree (EV : Exec Unit → Nat → Evaluator) (ev : Evaluator) (t : Tree) : Prop where
  settles : ∀ c m, finitary.Holds c m.store →
    Settles m (fun spent rounds => EV spent rounds t c) (ev t c)
  keeps : finitary.Evaluates true ev t

section

variable {EV : Exec Unit → Nat → Evaluator} {ev : Evaluator} {c : ScopeId} {m : Machine}
  {room : Nat}

theorem settles_operand {t : Tree} (ht : Agree EV ev t) (h : finitary.Holds c m.store) :
    Settles m (fun spent rounds => operand (EV spent rounds) t c) (operand ev t c) :=
  (ht.settles c m h).andThen fun _ => Exec.timely_pure

/-- What follows starts where the one evaluator has evaluated the operand. -/
theorem Agree.bind_operand {t : Tree} {F : Exec Unit → Nat → Value → Exec α} {f : Value → Exec α}
    (ht : Agree EV ev t) (h : finitary.Holds c m.store)
    (hf : ∀ v m', m.store.KeepsLengths m'.store → finitary.Holds c m'.store →
      finitary.Admits m'.store v → Settles m' (fun spent rounds => F spent rounds v) (f v)) :
    Settles m (fun spent rounds => operand (EV spent rounds) t c >>= F spent rounds)
      (operand ev t c >>= f) :=
  (settles_operand ht h).bind (Invariant.keeps_operand ht.keeps h) h hf

theorem settles_operands {ts : List Tree} (hts : ∀ t ∈ ts, Agree EV ev t)
    (h : finitary.Holds c m.store) :
    Settles m (fun spent rounds => operands (EV spent rounds) c ts) (operands ev c ts) := by
  induction ts generalizing m with
  | nil => exact .same Exec.timely_pure
  | cons t ts ih =>
    have ht := hts t List.mem_cons_self
    refine ht.bind_operand h fun v m' _ h' _ => ?_
    have hrest := ih (fun u hu => hts u (List.mem_cons_of_mem _ hu)) h'
    exact hrest.andThen fun _ => Exec.timely_pure

theorem settles_sequence {ts : List Tree} {last : Option Value} (hts : ∀ t ∈ ts, Agree EV ev t)
    (h : finitary.Holds c m.store) :
    Settles m (fun spent rounds => sequence (EV spent rounds) c last ts)
      (sequence ev c last ts) := by
  induction ts generalizing m last with
  | nil => exact .same Exec.timely_pure
  | cons t ts ih =>
    have ht := hts t List.mem_cons_self
    refine (ht.settles c m h).bind (ht.keeps c m h) h fun v m' _ h' _ => ?_
    exact ih (fun u hu => hts u (List.mem_cons_of_mem _ hu)) h'

theorem settles_read {x : Except Fault β} {F : Exec Unit → Nat → β → Exec α} {f : β → Exec α}
    (hf : ∀ b, x = .ok b → Settles m (fun spent rounds => F spent rounds b) (f b)) :
    Settles m (fun spent rounds => Exec.ofDocument x >>= F spent rounds)
      (Exec.ofDocument x >>= f) := by
  refine (Settles.same Exec.timely_ofDocument).bind' fun b hb => ?_
  cases x with
  | ok a =>
    cases hb
    exact hf _ rfl
  | error e => cases hb

theorem settles_block {statements : Tree}
    (hts : ∀ ts, statements.items = .ok ts → ∀ t ∈ ts, Agree EV ev t)
    (h : finitary.Holds c m.store) :
    Settles m (fun spent rounds => block (EV spent rounds) c statements) (block ev c statements) :=
  settles_read fun ts he => settles_sequence (hts ts he) h

theorem settles_listLiteral {elements n : Tree}
    (hts : ∀ ts, elements.items = .ok ts → ∀ t ∈ ts, Agree EV ev t)
    (h : finitary.Holds c m.store) :
    Settles m (fun spent rounds => listLiteral (EV spent rounds) c elements n)
      (listLiteral ev c elements n) := by
  refine settles_read fun ts he => (settles_operands (hts ts he) h).andThen fun vs => ?_
  exact Exec.timely_newList.bind fun _ => timely_placed

theorem settles_binary {left op right n : Tree} (hl : Agree EV ev left) (hr : Agree EV ev right)
    (h : finitary.Holds c m.store) :
    Settles m (fun spent rounds => binary (EV spent rounds) c left op right n)
      (binary ev c left op right n) := by
  refine hr.bind_operand h fun b m' _ h' _ => ?_
  refine (settles_operand hl h').andThen fun a => timely_nameOf.bind fun symbol => ?_
  split
  · exact timely_failAt
  · exact (Operator.timely_apply _ a b).located.bind fun _ => timely_resultAt

theorem settles_unary {op t n : Tree} (ht : Agree EV ev t) (h : finitary.Holds c m.store) :
    Settles m (fun spent rounds => unary (EV spent rounds) c op t n) (unary ev c op t n) :=
  (settles_operand ht h).andThen fun _ => Exec.timely_ofDocument.bind fun _ =>
    timely_signed.located.bind fun _ => timely_resultAt

theorem settles_ternary {condition left right : Tree} (hc : Agree EV ev condition)
    (hl : Agree EV ev left) (hr : Agree EV ev right) (h : finitary.Holds c m.store) :
    Settles m (fun spent rounds => ternary (EV spent rounds) c condition left right)
      (ternary ev c condition left right) := by
  refine hc.bind_operand h fun v m' _ h' _ => ?_
  refine settles_read fun b _ => ?_
  cases b with
  | true => exact hl.settles c m' h'
  | false => exact hr.settles c m' h'

theorem settles_assign {t value : Tree} (hv : Agree EV ev value) (h : finitary.Holds c m.store) :
    Settles m (fun spent rounds => assign room (EV spent rounds) c t value)
      (assign room ev c t value) :=
  (settles_operand hv h).andThen fun _ => timely_nameOf.bind fun _ =>
    Exec.timely_updateStore.bind fun _ => Exec.timely_noteValue.bind fun _ => Exec.timely_pure

theorem settles_indexOperand {complaint : Complaint} {i n : Tree} (hi : Agree EV ev i)
    (h : finitary.Holds c m.store) :
    Settles m (fun spent rounds => indexOperand (EV spent rounds) c complaint i n)
      (indexOperand ev c complaint i n) :=
  (settles_operand hi h).andThen fun _ => Exec.timely_pure.ite timely_failAt.located

theorem settles_upToOperand {upTo n : Tree} (hu : upTo.isNull = false → Agree EV ev upTo)
    (h : finitary.Holds c m.store) :
    Settles m (fun spent rounds => upToOperand (EV spent rounds) c upTo n)
      (upToOperand ev c upTo n) := by
  unfold upToOperand
  cases hnull : upTo.isNull with
  | true => exact .same Exec.timely_pure
  | false => exact (settles_indexOperand (hu hnull) h).andThen fun _ => Exec.timely_pure

theorem settles_index {target i upTo n : Tree} (ht : Agree EV ev target) (hi : Agree EV ev i)
    (hu : upTo.isNull = false → Agree EV ev upTo) (h : finitary.Holds c m.store) :
    Settles m (fun spent rounds => index (EV spent rounds) c target i upTo n)
      (index ev c target i upTo n) := by
  refine ht.bind_operand h fun v m₁ _ h₁ _ => ?_
  have hindex : finitary.Keeps true c m₁ (indexOperand ev c .indexNotNumber i n) finitary.Admits :=
    Invariant.keeps_indexOperand hi.keeps h₁
  refine (settles_indexOperand hi h₁).bind hindex h₁ fun i m₂ _ h₂ _ => ?_
  refine (settles_upToOperand hu h₂).andThen fun j => ?_
  split
  · exact Exec.timely_access.located.bind fun _ => Exec.timely_pure
  · exact Exec.timely_fail.located

theorem timely_assignAt {l : ListId} {name : Scalar} {index v : Value} {n : Tree} : (do
      Exec.located n.span (Exec.assign l index v)
      let slot ← Exec.text .written room index
      Exec.noteValue room 2 v fun text =>
        "assign " ++ name.display ++ "[" ++ slot ++ "] = " ++ text
      return some v : Exec (Option Value)).Timely :=
  Exec.timely_assign.located.bind fun _ => Exec.timely_text.bind fun _ =>
    Exec.timely_noteValue.bind fun _ => Exec.timely_pure

theorem settles_assignIndex {t i value n : Tree} (hi : Agree EV ev i) (hv : Agree EV ev value)
    (h : finitary.Holds c m.store) :
    Settles m (fun spent rounds => assignIndex room (EV spent rounds) c t i value n)
      (assignIndex room ev c t i value n) := by
  refine settles_read fun name _ => ?_
  refine (Settles.same Exec.timely_store).bind (Invariant.keeps_store h) h fun s m₁ _ h₁ _ => ?_
  cases (s.lookup c name).map Value.payload with
  | none => exact .same timely_failAt.located
  | some p =>
    cases p with
    | list l =>
      refine hi.bind_operand h₁ fun index m₂ _ h₂ _ => ?_
      refine (settles_operand hv h₂).andThen fun v => ?_
      split
      · exact timely_failAt.located.bind fun _ => timely_assignAt
      · exact timely_assignAt
    | _ => exact .same timely_failAt.located

theorem settles_cases {otherwise : Tree} {ts : List Tree}
    (hts : ∀ g ∈ ts, ∀ u, g.condition = .ok u ∨ g.body = .ok u → Agree EV ev u)
    (ho : otherwise.isNull = false → Agree EV ev otherwise) (h : finitary.Holds c m.store) :
    Settles m (fun spent rounds => cases (EV spent rounds) c otherwise ts)
      (cases ev c otherwise ts) := by
  induction ts generalizing m with
  | nil =>
    unfold cases
    cases hnull : otherwise.isNull with
    | true => exact .same Exec.timely_pure
    | false =>
      refine (Settles.same Exec.timely_note).bind (Invariant.keeps_note h) h fun _ m' _ h' _ => ?_
      exact (ho hnull).settles c m' h'
  | cons g ts ih =>
    have hg := hts g List.mem_cons_self
    refine settles_read fun condition hcondition => ?_
    have hc := hg condition (.inl hcondition)
    refine hc.bind_operand h fun v m₁ _ h₁ _ => ?_
    refine settles_read fun b _ => ?_
    cases b with
    | true =>
      refine settles_read fun start _ => ?_
      refine (Settles.same Exec.timely_note).bind (Invariant.keeps_note h₁) h₁ fun _ m₂ _ h₂ _ => ?_
      exact settles_read fun body hbody => (hg body (.inr hbody)).settles c m₂ h₂
    | false => exact ih (fun g hmem => hts g (List.mem_cons_of_mem _ hmem)) h₁

theorem settles_conditional {guarded otherwise : Tree}
    (hts : ∀ ts, guarded.items = .ok ts → ∀ g ∈ ts, ∀ u, g.condition = .ok u ∨ g.body = .ok u →
      Agree EV ev u)
    (ho : otherwise.isNull = false → Agree EV ev otherwise) (h : finitary.Holds c m.store) :
    Settles m (fun spent rounds => conditional (EV spent rounds) c guarded otherwise)
      (conditional ev c guarded otherwise) :=
  settles_read fun ts he => settles_cases (hts ts he) ho h

/-! ## Loops over lists and calls -/

/-- Whether another round follows only depends on the way the body ends. -/
theorem settles_goesOn {X : Exec Unit → Nat → Exec (Option Value)} {y : Exec (Option Value)}
    (hx : Settles m X y) :
    Settles m (fun spent rounds => goesOn (X spent rounds)) (goesOn y) := by
  have hattempt : Settles m (fun spent rounds => Exec.attempt (X spent rounds))
      (Exec.attempt y) := by
    refine ⟨trivial, ?_⟩
    filter_upwards [hx.agrees] with rounds hagrees spent
    exact ⟨congrArg Except.ok (hagrees spent).1, (hagrees spent).2⟩
  refine hattempt.bind' fun r hr => ?_
  obtain rfl : y.result m = r := Except.ok.inj hr
  have htimely := hx.isTimely
  cases hr : y.result m with
  | ok v => exact .same Exec.timely_pure
  | error e =>
    rw [hr] at htimely
    cases e with
    | continueLoop | breakLoop => exact .same Exec.timely_pure
    | _ => exact .same fun _ => htimely

theorem settles_store {F : Exec Unit → Nat → Store → Exec α} {y : Exec α}
    (hf : Settles m (fun spent rounds => F spent rounds m.store) y) :
    Settles m (fun spent rounds => Exec.store >>= F spent rounds) y := ⟨hf.isTimely, hf.agrees⟩

theorem keeps_bindElement {name : Scalar} {l : ListId} {i : Nat} (h : finitary.Holds c m.store) :
    finitary.Keeps true c m (bindElement room c name l i) fun _ _ => True := by
  refine (Invariant.keeps_store h).bind h fun s m₁ _ h₁ hs => ?_
  subst hs
  refine (Invariant.keeps_bindName h₁ (Invariant.admits_getD h₁)).bind h₁ fun _ m₂ _ h₂ _ => ?_
  exact Invariant.keeps_noteValue h₂

theorem liveRounds_unfold {name : Scalar} {l : ListId} {body : Tree} (i : Nat) :
    ∀ᶠ rounds in atTop, ∀ spent,
      liveRounds spent room (EV spent rounds) c name l body (rounds - i) i = (do
        if i < ((← Exec.store).elements l).size then
          bindElement room c name l i
          if ← goesOn (EV spent rounds body c) then
            liveRounds spent room (EV spent rounds) c name l body (rounds - (i + 1)) (i + 1)) := by
  filter_upwards [eventually_gt_atTop i] with rounds hrounds spent
  rw [show rounds - i = rounds - (i + 1) + 1 by omega, liveRounds]

/-- The fuel is for more rounds than the list has slots from the next one on, and stays so. -/
theorem settles_eachRounds {name : Scalar} {l : ListId} {body : Tree} {fuel i : Nat}
    (hb : Agree EV ev body) (h : finitary.Holds c m.store)
    (hi : i ≤ (m.store.elements l).size) (hfuel : (m.store.elements l).size < i + fuel) :
    Settles m
      (fun spent rounds => liveRounds spent room (EV spent rounds) c name l body (rounds - i) i)
      (eachRounds room ev c name l body fuel i) := by
  induction fuel generalizing i m with
  | zero => omega
  | succ fuel ih =>
    by_cases hnext : i < (m.store.elements l).size
    · refine Settles.congr ?_ ((ends_eachRounds_of_some (Array.getElem?_eq_getElem hnext)).mpr
        ⟨rfl, rfl⟩)
      refine (settles_store ?_).of_eventually (liveRounds_unfold i)
      simp only [if_pos hnext]
      refine (Settles.same timely_bindElement).bind (keeps_bindElement h) h fun _ m₁ hl₁ h₁ _ => ?_
      have hbody := settles_goesOn (hb.settles c m₁ h₁)
      refine hbody.bind (Invariant.keeps_goesOn hb.keeps h₁) h₁ fun again m₂ hl₂ h₂ _ => ?_
      have hsize := (hl₁.trans hl₂).size_elements (Nat.zero_lt_of_lt hnext)
      cases again with
      | true => exact ih h₂ (by omega) (by omega)
      | false => exact .same Exec.timely_pure
    · have hslot := Array.getElem?_eq_none (Nat.le_of_not_lt hnext)
      refine Settles.congr (y := pure ()) ?_ ((ends_eachRounds_of_none hslot).mpr ⟨rfl, rfl⟩)
      refine (settles_store ?_).of_eventually (liveRounds_unfold i)
      simp only [if_neg hnext]
      exact .same Exec.timely_pure

theorem settles_eachLoop {rounds : Nat} {t iterable body n : Tree} (hi : Agree EV ev iterable)
    (hb : Agree EV ev body) (h : finitary.Holds c m.store) :
    Settles m
      (fun spent rounds => liveLoop spent rounds room (EV spent rounds) c t iterable body n)
      (eachLoop rounds room ev c t iterable body n) := by
  refine hi.bind_operand h fun v m₁ _ h₁ _ => ?_
  obtain ⟨p, sp⟩ := v
  cases p with
  | list l =>
    refine settles_read fun name _ => ?_
    let size := (m₁.store.elements l).size
    have hrounds : Settles m₁
        (fun spent rounds => liveRounds spent room (EV spent rounds) c name l body (rounds - 0) 0)
        (eachRounds room ev c name l body (rounds + size + 1) 0) :=
      settles_eachRounds hb h₁ (Nat.zero_le _) (by omega)
    have hrest := hrounds.andThen (f := fun _ => do
      Exec.updateStore (·.unbind c name)
      return (none : Option Value)) fun _ => Exec.timely_updateStore.bind fun _ => Exec.timely_pure
    exact ⟨hrest.isTimely, hrest.agrees⟩
  | _ => exact .same timely_failAt.located

/-- Without functions of the program a call does not evaluate anything. -/
theorem timely_callValue {v : Value} {args : List Value} (hv : ∀ f, v.payload ≠ .function f) :
    (callValue room ev v args).Timely := by
  unfold callValue
  split
  · exact Builtin.timely_call
  · next f hf => exact (hv f hf).elim
  · split
    · exact Exec.timely_access
    · exact Exec.timely_access
    · exact Exec.timely_fail
  · exact Exec.timely_fail

theorem callValue_congr {ev' : Evaluator} {v : Value} {args : List Value}
    (hv : ∀ f, v.payload ≠ .function f) : callValue room ev v args = callValue room ev' v args := by
  unfold callValue
  split
  · rfl
  · next f hf => exact (hv f hf).elim
  · rfl
  · rfl

theorem settles_call {callee args n : Tree} (hc : Agree EV ev callee)
    (hargs : ∀ ts, args.items = .ok ts → ∀ t ∈ ts, Agree EV ev t)
    (h : finitary.Holds c m.store) :
    Settles m (fun spent rounds => call room (EV spent rounds) c callee args n)
      (call room ev c callee args n) := by
  refine hc.bind_operand h fun v m₁ _ h₁ hv => ?_
  refine settles_read fun ts he => (settles_operands (hargs ts he) h₁).bind' fun vs _ => ?_
  have hrest : (do
      Exec.noteValue room 2 v fun text =>
        "call " ++ text ++ " with " ++ toString vs.length ++ " argument(s)"
      resultAt (← Exec.located n.span (callValue room ev v vs)) n).Timely :=
    Exec.timely_noteValue.bind fun _ => (timely_callValue hv).located.bind fun _ => timely_resultAt
  refine (Settles.same hrest).of_eventually (.of_forall fun rounds spent => ?_)
  rw [callValue_congr hv]

theorem settles_giveBack {value n : Tree} (hv : value.isNull = false → Agree EV ev value)
    (h : finitary.Holds c m.store) :
    Settles m (fun spent rounds => giveBack (EV spent rounds) c value n)
      (giveBack ev c value n) := by
  unfold giveBack
  cases hnull : value.isNull with
  | true =>
    refine settles_read fun s _ => ?_
    have hthrow : (throw (.giveBack (Value.null.place s)) : Exec PUnit).Timely := fun _ => trivial
    exact (Settles.same hthrow).bind' fun _ hb => nomatch hb
  | false => exact (settles_operand (hv hnull) h).andThen fun _ _ => trivial

/-- The step on a node settles if the evaluators below it agree on the parts inside. -/
theorem settles_step {rounds : Nat} {t : Tree} (ht : Finitary t)
    (hev : ∀ u, Finitary u → Agree EV ev u) (h : finitary.Holds c m.store) :
    Settles m (fun spent fuel => liveStep spent fuel room (EV spent fuel) t c)
      (step rounds room ev t c) := by
  have hinner {w : Way} {u : Tree} (hu : Inner t w u) : Agree EV ev u := hev u (ht.inner hu)
  fun_cases step 0 0 (fun _ _ => throw .endless) t 0 with
  | case1 => exact .same timely_numberLiteral
  | case2 => exact .same timely_textLiteral
  | case3 => exact .same timely_placed
  | case4 => exact settles_listLiteral (fun ts hts u hu => hinner (.element hts hu)) h
  | case5 => exact settles_block (fun ts hts u hu => hinner (.statement hts hu)) h
  | case6 =>
    refine settles_ternary (hinner (.ternary ?_)) (hinner (.ternary ?_)) (hinner (.ternary ?_)) h
      <;> simp
  | case7 => refine settles_binary (hinner (.binary ?_)) (hinner (.binary ?_)) h <;> simp
  | case8 => exact settles_unary (hinner .unary) h
  | case9 => exact .same timely_lookup
  | case10 => exact settles_assign (hinner .assign) h
  | case11 =>
    refine settles_index (hinner (.index ?_)) (hinner (.index ?_)) (fun hu => hinner (.upTo hu)) h
      <;> simp
  | case12 =>
    refine settles_assignIndex (hinner (.assignIndex ?_)) (hinner (.assignIndex ?_)) h <;> simp
  | case13 =>
    refine settles_conditional ?_ (fun ho => hinner (.otherwise ho)) h
    intro ts hts g hg u hu
    rcases hu with hu | hu
    · exact hinner (.condition hts hg hu)
    · exact hinner (.guarded hts hg hu)
  | case14 => exact (ht _ .refl trivial).elim
  | case15 => exact settles_eachLoop (hinner .eachHeader) (hinner .eachBody) h
  | case16 => exact (ht _ .refl trivial).elim
  | case17 => exact .same fun _ => trivial
  | case18 => exact .same fun _ => trivial
  | case19 => exact (ht _ .refl trivial).elim
  | case20 => exact settles_call (hinner .callee) (fun ts hts u hu => hinner (.argument hts hu)) h
  | case21 => exact settles_giveBack (fun hv => hinner (.giveBack hv)) h
  | case22 => exact .same Exec.timely_fault
  | case23 k fields =>
    have hstep (rounds room : Nat) (ev : Evaluator) (c : ScopeId) :
        step rounds room ev (.node k fields) c = throw (.fault .malformed) := by
      simp only [step, *]
    have hlive (spent : Exec Unit) (rounds : Nat) (ev : Evaluator) :
        liveStep spent rounds room ev (.node k fields) c = throw (.fault .malformed) := by
      unfold liveStep
      split
      · next t iterable body p q heq =>
        have heach : ∀ t iterable body p q : Tree, k = .eachLoop →
            fields = [t, iterable, body, p, q] → False := ‹_›
        cases heq
        exact (heach t iterable body p q rfl rfl).elim
      · exact hstep rounds room ev c
    simp only [hstep, hlive]
    exact .same Exec.timely_fault
  | case24 =>
    have hnode : ∀ k fields, t ≠ .node k fields := ‹_›
    cases t with
    | node k fields => exact (hnode k fields rfl).elim
    | _ => exact .same Exec.timely_fault

end

theorem agree_live (rounds room : Nat) {t : Tree} (ht : Finitary t) :
    Agree (fun spent fuel => live spent fuel room) (evaluate rounds room) t := by
  refine ⟨?_, fun c m h => Invariant.evaluates finitary rounds room true t ⟨rfl, ht⟩ c m h⟩
  induction room generalizing t with
  | zero => exact fun _ _ _ => .same fun _ => trivial
  | succ room ih =>
    refine fun c m h => settles_step ht (fun u hu => ⟨ih hu, ?_⟩) h
    exact fun c m h => Invariant.evaluates finitary rounds room true u ⟨rfl, hu⟩ c m h

/-- A program without loops but those over lists, which neither makes nor finds a function, ends.
Its loops may look at their list before each round: some number of rounds is enough, so that with
any larger one it does not matter what would come when rounds run out. How it ends does not depend
on the rounds of other loops either. -/
theorem evaluate_settles (rounds room : Nat) {t : Tree} (ht : Finitary t) (c : ScopeId)
    {m : Machine} (hm : HasNoFunction m.store) :
    ((evaluate rounds room t c).result m ≠ .error .endless) ∧
      ∃ enough, ∀ fuel ≥ enough, ∀ spent,
        (live spent fuel room t c).result m = (evaluate rounds room t c).result m ∧
          (live spent fuel room t c).final m = (evaluate rounds room t c).final m := by
  have h := (agree_live rounds room ht).settles c m (holds_finitary c hm)
  refine ⟨fun hendless => ?_, eventually_atTop.mp h.agrees⟩
  have htimely := h.isTimely
  rw [hendless] at htimely
  exact htimely

/-- `each x : xs` with a body that puts the list into its own first slot. -/
theorem evaluate_settles_nesting :
    let first : Position := ⟨"f", 1, 1, 0⟩
    let next : Position := ⟨"f", 1, 2, 1⟩
    let name (s : String) : Token := ⟨.identifier, .text s, first, next⟩
    let xs := Node.lookup (name "xs")
    let zero := Node.number ⟨.number, .float 0, first, next⟩
    let loop := Tree.ofNode
      (.eachLoop (name "x") xs (.assignIndex (name "xs") zero xs) first next)
    let scope : Scope := ⟨Store.rootName, none, [(.text "xs", Value.unplaced (.list 0))]⟩
    let m : Machine :=
      { Machine.initial "" 0 with store := ⟨#[scope], #[#[Value.null, Value.null]]⟩ }
    (Finitary loop ∧ HasNoFunction m.store) ∧
      ∃ enough, ∀ fuel ≥ enough, ∀ spent,
        (live spent fuel 8 loop Store.root).final m = (evaluate 0 8 loop Store.root).final m := by
  intro first next name xs zero loop scope m
  have hleaf (t : Token) : Finitary (Tree.ofNode (.lookup t)) := finitary_of_inner id nofun
  have hbody : Finitary (Tree.ofNode (.assignIndex (name "xs") zero xs)) := by
    refine finitary_of_inner id fun w u hu => ?_
    cases hu with
    | assignIndex hu =>
      rcases List.mem_pair.mp hu with rfl | rfl
      · exact finitary_of_inner id nofun
      · exact hleaf (name "xs")
  have hloop : Finitary loop := by
    change Finitary (.node .eachLoop [_, Tree.ofNode xs, _, _, _])
    refine finitary_of_inner id fun w u hu => ?_
    cases hu with
    | eachHeader => exact hleaf (name "xs")
    | eachBody => exact hbody
  have hstore : HasNoFunction m.store := by
    rintro v (⟨scope', hscope, entry, hentry, rfl⟩ | ⟨elements, helements, hv⟩) f
    · obtain rfl := Array.mem_singleton.mp hscope
      obtain rfl := List.mem_singleton.mp hentry
      exact nofun
    · obtain rfl := Array.mem_singleton.mp helements
      obtain rfl : v = Value.null := by simpa using hv
      exact nofun
  obtain ⟨enough, h⟩ := (evaluate_settles 0 8 hloop Store.root hstore).2
  exact ⟨⟨hloop, hstore⟩, enough, fun fuel hfuel spent => (h fuel hfuel spent).2⟩

end Lumen.Eval
