import Lumen.Proofs.Eval.Simulation

/-!
# Operators, lists and built-in functions side by side

None of them looks at a span but to report it or to hand it on, and none looks at the body of a
function at all.
-/

namespace Lumen.Eval.Simulation

variable {S : Simulation} {α β : Type} {a a' b b' v v' : Value} {o : Operator}

/-! ## What shows of a payload -/

section

variable {p p' q q' : Payload}

theorem Payloads.equals_eq (hp : S.Payloads p p') (hq : S.Payloads q q') :
    p.equals q = p'.equals q' := by
  cases hq with
  | function =>
    cases hp with
    | plain => cases p <;> rfl
    | _ => rfl
  | _ =>
    cases hp <;> rfl

theorem Payloads.list_iff (h : S.Payloads p p') {l : ListId} : p = .list l ↔ p' = .list l := by
  cases h with
  | function => exact ⟨nofun, nofun⟩
  | _ => rfl

theorem Payloads.reachesList {l : ListId} (h : S.Payloads (.list l) p') : S.ReachesList l := by
  cases h with
  | plain hp => exact hp.elim
  | list hl => exact hl

theorem Payloads.isTrue_eq (h : S.Payloads p p') : p.isTrue = p'.isTrue := by cases h <;> rfl

theorem Payloads.isNumber_eq (h : S.Payloads p p') : p.isNumber = p'.isNumber := by cases h <;> rfl

theorem Payloads.isDatum_eq (h : S.Payloads p p') : p.isDatum = p'.isDatum := by cases h <;> rfl

theorem Payloads.data?_eq (h : S.Payloads p p') : p.data? = p'.data? := by cases h <;> rfl

theorem Values.truth_eq (h : S.Values v v') : v.truth = v'.truth := by
  obtain ⟨p, sp⟩ := v
  obtain ⟨p', sp'⟩ := v'
  obtain ⟨hp, _⟩ := h
  cases hp <;> rfl

end

/-! ## Operators -/

theorem results_refuse {P : α → β → Prop} {c : Complaint} (h : S.Values v v') :
    S.Results P (Value.refuse c v) (Value.refuse c v') := .error (.failure h.span)

theorem results_new (h : v.IsNew) : S.Results S.Values (.ok v) (.ok v) := .ok (values_new h)

theorem results_needNumber (h : S.Values v v') : S.Results Eq v.needNumber v'.needNumber := by
  obtain ⟨p, sp⟩ := v
  obtain ⟨p', sp'⟩ := v'
  have hrefuse : S.Results Eq (Value.refuse (α := Float) .expectedNumber ⟨p, sp⟩)
      (Value.refuse .expectedNumber ⟨p', sp'⟩) := results_refuse h
  obtain ⟨hp, _⟩ := h
  cases hp with
  | plain =>
    cases p with
    | number x => exact .ok rfl
    | _ => exact hrefuse
  | _ => exact hrefuse

theorem results_illegal {P : α → β → Prop} (h : S.Values v v') :
    S.Results P (Value.illegal o v) (Value.illegal o v') := by
  unfold Value.illegal
  rw [← h.kind_eq]
  exact results_refuse h

theorem results_needDivisor (h : S.Values v v') : S.Results Eq v.needDivisor v'.needDivisor := by
  refine (results_needNumber h).bind ?_
  rintro y _ rfl
  split
  · exact results_refuse h
  · exact .ok rfl

theorem results_numberOperation {x : Float} (hb : S.Values b b') :
    S.Results S.Values (Value.numberOperation o x b) (Value.numberOperation o x b') := by
  have hnumber (f : Float → Float) :
      S.Results S.Values (do return Value.number (f (← b.needNumber)))
      (do return Value.number (f (← b'.needNumber))) := by
    refine (results_needNumber hb).bind ?_
    rintro y _ rfl
    exact results_new (Value.isNew_number _)
  cases o with
  | add => exact hnumber (x + ·)
  | sub => exact hnumber (x - ·)
  | mul => exact hnumber (x * ·)
  | pow => exact hnumber (Double.power x)
  | div =>
    refine (results_needDivisor hb).bind ?_
    rintro y _ rfl
    exact results_new (Value.isNew_number _)
  | mod =>
    refine (results_needDivisor hb).bind ?_
    rintro y _ rfl
    cases Double.remainder? x y with
    | some r => exact results_new (Value.isNew_number _)
    | none => exact results_fault
  | _ => exact results_illegal (values_new (Value.isNew_number x))

/-- What is new or fails with a fault does not depend on places. -/
theorem results_same {r : Except Stop Value}
    (h : (∃ s, r = .ok (Value.text s)) ∨ ∃ f, r = .error (.fault f)) :
    S.Results S.Values r r := by
  obtain ⟨s, rfl⟩ | ⟨f, rfl⟩ := h
  · exact results_new (Value.isNew_text s)
  · exact results_fault

theorem results_grown {growth : Growth} {size : Nat} {s : Unit → String} :
    S.Results S.Values (Value.grown growth size s) (Value.grown growth size s) :=
  results_same ((Value.grown_cases growth size s).imp (⟨_, ·⟩) (⟨_, ·⟩))

theorem results_repeated {s : String} {count : Int} :
    S.Results S.Values (Value.repeated s count) (Value.repeated s count) := by
  unfold Value.repeated
  split
  · exact results_fault
  · split
    · exact results_new (Value.isNew_text _)
    · exact results_grown

theorem results_textOperation {s : String} (ha : S.Values a a') (hb : S.Values b b') :
    S.Results S.Values (Value.textOperation o a s b) (Value.textOperation o a' s b') := by
  cases o with
  | add =>
    unfold Value.textOperation
    obtain ⟨p, sp⟩ := b
    obtain ⟨p', sp'⟩ := b'
    have hrefuse : S.Results S.Values (Value.refuse .textConcatenation ⟨p, sp⟩)
        (Value.refuse .textConcatenation ⟨p', sp'⟩) := results_refuse hb
    obtain ⟨hp, _⟩ := hb
    cases hp with
    | plain =>
      cases p with
      | text t => exact results_grown
      | _ => exact hrefuse
    | _ => exact hrefuse
  | mul =>
    refine (results_needNumber hb).bind ?_
    rintro y _ rfl
    split
    · exact results_repeated
    · exact results_refuse hb
  | _ => exact results_illegal ha

theorem results_arithmetic (ha : S.Values a a') (hb : S.Values b b') :
    S.Results S.Values (Value.arithmetic o a b) (Value.arithmetic o a' b') := by
  unfold Value.arithmetic
  have hillegal : S.Results S.Values (Value.illegal o a) (Value.illegal o a') := results_illegal ha
  obtain ⟨p, sp⟩ := a
  obtain ⟨p', sp'⟩ := a'
  have hpayload := ha.payload
  cases hpayload with
  | plain hp =>
    cases p with
    | number x => exact results_numberOperation hb
    | text s => exact results_textOperation ha hb
    | list l => exact hp.elim
    | _ => exact hillegal
  | list =>
    dsimp only
    split
    · exact results_refuse ha
    · exact hillegal
  | _ => exact hillegal

theorem results_refuseBetween {P : α → β → Prop} {c : Complaint} (ha : S.Values a a')
    (hb : S.Values b b') :
    S.Results P (Value.refuseBetween c a b) (Value.refuseBetween c a' b') := by
  unfold Value.refuseBetween
  have hjoin := S.join ha.span.start hb.span.stop
  revert hjoin
  generalize Span.join a.span.start b.span.stop = r, Span.join a'.span.start b'.span.stop = r'
  intro hjoin
  cases hjoin with
  | ok h => exact .error (.failure h)
  | error => exact results_fault

theorem results_incomparable {P : α → β → Prop} (ha : S.Values a a') (hb : S.Values b b') :
    S.Results P (Value.incomparable a b) (Value.incomparable a' b') := by
  unfold Value.incomparable
  rw [← ha.kind_eq, ← hb.kind_eq]
  dsimp only
  split
  · exact results_refuse ha
  · exact results_refuseBetween ha hb

theorem results_ordered {numbers : Float → Float → Bool} {texts : String → String → Bool}
    (ha : S.Values a a') (hb : S.Values b b') :
    S.Results S.Values (Value.ordered numbers texts a b) (Value.ordered numbers texts a' b') := by
  have hincomparable : S.Results S.Values (Value.incomparable a b) (Value.incomparable a' b') :=
    results_incomparable ha hb
  unfold Value.ordered
  obtain ⟨p, sp⟩ := a
  obtain ⟨p', sp'⟩ := a'
  obtain ⟨q, sq⟩ := b
  obtain ⟨q', sq'⟩ := b'
  have hp := ha.payload
  have hq := hb.payload
  cases hp with
  | plain =>
    cases hq with
    | plain =>
      dsimp only
      split
      · exact results_new (Value.isNew_ofBool _)
      · exact results_new (Value.isNew_ofBool _)
      · exact hincomparable
    | _ => cases p <;> exact hincomparable
  | _ => exact hincomparable

theorem values_both (ha : S.Values a a') (hb : S.Values b b') :
    S.Values (Value.both a b) (Value.both a' b') := by
  unfold Value.both Value.isTrue
  rw [← ha.payload.isTrue_eq, ← hb.payload.isTrue_eq]
  split
  · exact hb
  · exact values_new (Value.isNew_ofBool _)

theorem values_either (ha : S.Values a a') (hb : S.Values b b') :
    S.Values (Value.either a b) (Value.either a' b') := by
  unfold Value.either Value.isTrue
  rw [← ha.payload.isTrue_eq, ← hb.payload.isTrue_eq]
  split
  · exact ha
  · split
    · exact hb
    · exact values_new (Value.isNew_ofBool _)

theorem results_operate (ha : S.Values a a') (hb : S.Values b b') :
    S.Results S.Values (Value.operate o a b) (Value.operate o a' b') := by
  cases o with
  | eq =>
    unfold Value.operate Value.equals
    rw [← ha.payload.equals_eq hb.payload]
    exact results_new (Value.isNew_ofBool _)
  | ne =>
    unfold Value.operate Value.differs
    rw [← ha.payload.equals_eq hb.payload]
    exact results_new (Value.isNew_ofBool _)
  | gt | ge | lt | le => exact results_ordered ha hb
  | and => exact .ok (values_both ha hb)
  | or => exact .ok (values_either ha hb)
  | _ => exact results_arithmetic ha hb

theorem results_data {r : Except Fault Json} :
    S.Results S.Values ((r.mapError Stop.fault).map fun j => Value.unplaced (.datum j))
      ((r.mapError Stop.fault).map fun j => Value.unplaced (.datum j)) := by
  cases r with
  | ok j => exact results_new (Value.isNew_unplaced (p := .datum j) trivial)
  | error f => exact results_fault

theorem results_bool {r : Except Fault Bool} :
    S.Results S.Values ((r.mapError Stop.fault).map Value.ofBool)
      ((r.mapError Stop.fault).map Value.ofBool) := by
  cases r with
  | ok x => exact results_new (Value.isNew_ofBool _)
  | error f => exact results_fault

/-- The truth of two operands, the second one only where the first one asks for it. -/
theorem results_both (ha : S.Values a a') (hb : S.Values b b') :
    S.Results S.Values
      (Except.mapError Stop.fault do
        if ← a.truth then
          if ← b.truth then return b
        return Value.ofBool false)
      (Except.mapError Stop.fault do
        if ← a'.truth then
          if ← b'.truth then return b'
        return Value.ofBool false) := by
  have hfalse : S.Results S.Values (.ok (Value.ofBool false)) (.ok (Value.ofBool false)) :=
    results_new (Value.isNew_ofBool _)
  rw [← ha.truth_eq, ← hb.truth_eq]
  cases a.truth with
  | error f => exact results_fault
  | ok x =>
    cases x with
    | false => exact hfalse
    | true =>
      cases b.truth with
      | error f => exact results_fault
      | ok y =>
        cases y with
        | false => exact hfalse
        | true => exact .ok hb

theorem results_either (ha : S.Values a a') (hb : S.Values b b') :
    S.Results S.Values
      (Except.mapError Stop.fault do
        if ← a.truth then return a
        if ← b.truth then return b
        return Value.ofBool false)
      (Except.mapError Stop.fault do
        if ← a'.truth then return a'
        if ← b'.truth then return b'
        return Value.ofBool false) := by
  rw [← ha.truth_eq, ← hb.truth_eq]
  cases a.truth with
  | error f => exact results_fault
  | ok x =>
    cases x with
    | true => exact .ok ha
    | false =>
      cases b.truth with
      | error f => exact results_fault
      | ok y =>
        cases y with
        | false => exact results_new (Value.isNew_ofBool _)
        | true => exact .ok hb

theorem results_operateData (ha : S.Values a a') (hb : S.Values b b') :
    S.Results S.Values (Value.operateData o a b) (Value.operateData o a' b') := by
  have hoperate {o : Operator} : S.Results S.Values (Value.operate o a b) (Value.operate o a' b') :=
    results_operate ha hb
  have hy := hb.payload.data?_eq
  unfold Value.operateData
  dsimp only
  rw [← ha.payload.data?_eq, ← hy]
  have hp := ha.payload
  revert hp
  generalize hpa : a.payload = p, a'.payload = p', b.payload.data? = y
  intro hp
  cases hp with
  | plain =>
    generalize p.data? = x
    split
    · exact results_both ha hb
    · exact results_either ha hb
    · exact results_new (Value.isNew_ofBool _)
    · exact results_new (Value.isNew_ofBool _)
    · exact results_data
    · exact results_bool
    · exact results_bool
    · exact results_bool
    · exact results_bool
    · exact results_refuse hb
    · refine (results_needNumber hb).bind ?_
      rintro z _ rfl
      split
      · exact results_data
      · exact results_refuse hb
    · exact hoperate
  | _ =>
    cases o with
    | and => exact results_both ha hb
    | or => exact results_either ha hb
    | _ => exact hoperate

theorem results_copyTo {s s' : Span} (hv : S.Values v v') (hs : Spans S.Marks s s') :
    S.Results S.Values (v.copyTo s) (v'.copyTo s') := by
  unfold Value.copyTo
  obtain ⟨p, sp⟩ := v
  obtain ⟨p', sp'⟩ := v'
  have hp := hv.payload
  cases hp with
  | base => exact results_fault
  | plain hplain =>
    cases p with
    | base => exact hplain.elim
    | _ => exact .ok (hv.place hs)
  | _ => exact .ok (hv.place hs)

theorem apply_eq (h : ∀ l m, o = .add → a.payload = .list l → b.payload ≠ .list m) :
    o.apply a b = Exec.ofExcept (if a.payload.isDatum || b.payload.isDatum then a.operateData o b
      else a.operate o b) := by
  unfold Operator.apply
  split
  · next l m ha hb => exact (h l m rfl ha hb).elim
  · rfl

/-- Two lists are joined to new ones. -/
theorem alike_apply (ha : S.Values a a') (hb : S.Values b b') :
    S.Alike (o.apply a b) (o.apply a' b') S.Values := by
  -- Only the sum of two lists does anything to the store.
  by_cases hlists : ∃ l m, o = .add ∧ a.payload = .list l ∧ b.payload = .list m
  · obtain ⟨l, m, rfl, hl, hm⟩ := hlists
    have hl' := ha.payload.list_iff.mp hl
    have hm' := hb.payload.list_iff.mp hm
    have hal : S.ReachesList l := (hl ▸ ha.payload).reachesList
    have hbm : S.ReachesList m := (hm ▸ hb.payload).reachesList
    unfold Operator.apply
    rw [hl, hm, hl', hm']
    refine alike_store.bind fun s s' h => ?_
    exact alike_newList ((h.elements hal).append (h.elements hbm))
  · rw [apply_eq fun l m ho hl hm => hlists ⟨l, m, ho, hl, hm⟩, apply_eq fun l m ho hl hm =>
      hlists ⟨l, m, ho, ha.payload.list_iff.mpr hl, hb.payload.list_iff.mpr hm⟩]
    rw [← ha.payload.isDatum_eq, ← hb.payload.isDatum_eq]
    apply alike_ofExcept
    split
    · exact results_operateData ha hb
    · exact results_operate ha hb

/-! ## Elements -/

section

variable {i i' : Value} {l : ListId}

theorem results_checkIndex {length : Nat} {upper : Int} (h : S.Values i i') :
    S.Results Eq (Value.checkIndex length upper i) (Value.checkIndex length upper i') := by
  have hrefuse {c : Complaint} : S.Results (@Eq Nat) (Value.refuse c i) (Value.refuse c i') :=
    results_refuse h
  unfold Value.checkIndex
  obtain ⟨p, sp⟩ := i
  obtain ⟨p', sp'⟩ := i'
  have hp := h.payload
  cases hp with
  | plain =>
    dsimp only
    split
    · split
      · split
        · exact hrefuse
        · exact .ok rfl
      · exact hrefuse
    · exact hrefuse
  | _ => exact hrefuse

theorem results_checkSlice {length : Nat} {j j' : Value} (hi : S.Values i i')
    (hj : S.Values j j') :
    S.Results Eq (Value.checkSlice length i j) (Value.checkSlice length i' j') := by
  refine (results_checkIndex hi).bind ?_
  rintro start _ rfl
  refine (results_checkIndex hj).bind ?_
  rintro stop _ rfl
  split
  · exact results_refuseBetween hi hj
  · exact .ok rfl

theorem alike_holds (h : S.Values v v') : S.Alike (Exec.holds v) (Exec.holds v') Eq :=
  alike_reading h.truth_eq

theorem alike_access {j j' : Option Value} (hl : S.ReachesList l) (hi : S.Values i i')
    (hj : Option.Rel S.Values j j') :
    S.Alike (Exec.access l i j) (Exec.access l i' j') S.Values := by
  refine alike_store.bind fun s s' h => ?_
  have helements := h.elements hl
  dsimp only
  rw [← helements.size_eq]
  cases hj with
  | none =>
    refine (alike_ofExcept (results_checkIndex hi)).bind ?_
    rintro k _ rfl
    exact alike_pure (helements.getD values_null k)
  | some hj =>
    refine (alike_ofExcept (results_checkSlice hi hj)).bind ?_
    rintro range _ rfl
    exact alike_newList (helements.extract _ _)

theorem alike_assignElement {fields : List Tree} {t' : Tree} (hl : S.ReachesList l)
    (hparts : S.Parts (.node .assignIndex fields) t') (hi : S.Values i i') (hv : S.Values v v') :
    S.Alike (Exec.assign l i v) (Exec.assign l i' v') fun _ _ => True := by
  refine alike_store.bind fun s s' h => ?_
  dsimp only
  rw [← (h.elements hl).size_eq]
  refine (alike_ofExcept (results_checkIndex hi)).bind ?_
  rintro k _ rfl
  exact alike_updateStore fun _ _ h => h.setElement hparts hv k

end

/-! ## Built-in functions -/

section

variable {room room' : Nat} {f : Builtin} {args args' : List Value}

theorem alike_refuse {P : α → β → Prop} {c : Complaint} :
    S.Alike (Builtin.refuse c) (Builtin.refuse c) P := alike_throw (.failure spans_none)

theorem alike_refuseAt {P : α → β → Prop} {c : Complaint} (h : S.Values v v') :
    S.Alike (Builtin.refuseAt c v) (Builtin.refuseAt c v') P := alike_fail h.span

theorem alike_new (h : v.IsNew) : S.Alike (pure v) (pure v) S.Values := alike_pure (values_new h)

theorem alike_print {text : String} : S.Alike (Exec.update (·.print text))
    (Exec.update (·.print text)) fun _ _ => True := by
  intro m m' hm
  refine .inr ⟨.ok trivial, hm.store, hm.input_eq, ?_, hm.log⟩
  show m.output ++ text = m'.output ++ text
  rw [hm.output_eq]

theorem alike_readInput :
    S.Alike (do
      let line := (← get).nextLine
      Exec.update Machine.dropLine
      return Value.text line)
      (do
      let line := (← get).nextLine
      Exec.update Machine.dropLine
      return Value.text line) S.Values := by
  have hget : S.Alike (get : Exec Machine) get S.Machines := fun _ _ hm => .inr ⟨.ok hm, hm⟩
  refine hget.bind fun now now' hnow => ?_
  have hline : now.nextLine = now'.nextLine := by
    rw [Machine.nextLine, Machine.nextLine, hnow.input_eq]
  dsimp only
  rw [hline]
  have hdrop : S.Alike (Exec.update Machine.dropLine) (Exec.update Machine.dropLine)
      fun _ _ => True := by
    intro m m' hm
    refine .inr ⟨.ok trivial, hm.store, ?_, hm.output_eq, hm.log⟩
    show (m.input.dropWhile (· != '\n')).drop 1 = (m'.input.dropWhile (· != '\n')).drop 1
    rw [hm.input_eq]
  exact hdrop.bind fun _ _ _ => alike_new (Value.isNew_text _)

theorem alike_readLine {prompt : Json} :
    S.Alike (Builtin.readLine prompt) (Builtin.readLine prompt) S.Values := by
  unfold Builtin.readLine
  split
  · exact alike_print.bind fun _ _ _ => alike_readInput
  · exact alike_throw_bind .fault

theorem alike_needData (h : S.Values v v') : S.Alike (f.needData v) (f.needData v') Eq := by
  unfold Builtin.needData
  rw [← h.payload.data?_eq]
  split
  · exact alike_pure rfl
  · exact alike_refuseAt h

theorem alike_needText (h : S.Values v v') : S.Alike (f.needText v) (f.needText v') Eq := by
  refine (alike_needData h).bind ?_
  rintro j _ rfl
  split
  · exact alike_pure rfl
  · exact alike_fault

theorem alike_needList (h : S.Values v v') :
    S.Alike (f.needList v) (f.needList v') (Aligned S.Values) := by
  have hrefuse {c : Complaint} : S.Alike (Builtin.refuseAt (α := Array Value) c v)
      (Builtin.refuseAt c v') (Aligned S.Values) := alike_refuseAt h
  unfold Builtin.needList
  obtain ⟨p, sp⟩ := v
  obtain ⟨p', sp'⟩ := v'
  have hp := h.payload
  cases hp with
  | list hl => exact alike_store.bind fun s s' h => alike_pure (h.elements hl)
  | plain hplain =>
    cases p with
    | list l => exact hplain.elim
    | _ => exact hrefuse
  | _ => exact hrefuse

theorem alike_texts {form : Form} (hargs : List.Forall₂ S.Values args args')
    (hr : S.Rooms room room') :
    S.Alike (args.mapM (Exec.text form room)) (args'.mapM (Exec.text form room')) Eq := by
  induction hargs with
  | nil => exact alike_pure rfl
  | @cons v v' args args' hv _ ih =>
    rw [List.mapM_cons, List.mapM_cons]
    refine (alike_text hv hr).bind ?_
    rintro text _ rfl
    refine ih.bind ?_
    rintro texts _ rfl
    exact alike_pure rfl

theorem alike_printValues {ending : String} (hargs : List.Forall₂ S.Values args args')
    (hr : S.Rooms room room') :
    S.Alike (Builtin.printValues room args ending) (Builtin.printValues room' args' ending)
      fun _ _ => True := by
  refine (alike_texts hargs hr).bind ?_
  rintro texts _ rfl
  exact alike_print

theorem alike_replacement {argument : Nat} {j : Json} :
    S.Alike (Builtin.replacement argument j) (Builtin.replacement argument j) Eq := by
  unfold Builtin.replacement
  split
  · exact alike_pure rfl
  · exact alike_fault

theorem alike_replaced {s s' old old' new new' : Value} (hs : S.Values s s')
    (hold : S.Values old old') (hnew : S.Values new new') :
    S.Alike (Builtin.replaced s old new) (Builtin.replaced s' old' new') S.Values := by
  refine (alike_needData hs).bind ?_
  rintro text _ rfl
  refine (alike_needData hold).bind ?_
  rintro old _ rfl
  refine (alike_needData hnew).bind ?_
  rintro new _ rfl
  split
  · refine alike_replacement.bind ?_
    rintro old _ rfl
    refine alike_replacement.bind ?_
    rintro new _ rfl
    exact alike_ofExcept
      (results_same ((Builtin.replaceIn_cases _ old new).imp (⟨_, ·⟩) (⟨_, ·⟩)))
  · exact alike_fault

theorem alike_exitCode (hargs : List.Forall₂ S.Values args args') :
    S.Alike (Builtin.exitCode args) (Builtin.exitCode args') Eq := by
  cases hargs with
  | nil => exact alike_pure rfl
  | @cons v v' args args' hv hrest =>
    cases hrest with
    | nil =>
      have hrefuse {c : Complaint} : S.Alike (Builtin.refuseAt (α := Int) c v)
          (Builtin.refuseAt c v') Eq := alike_refuseAt hv
      unfold Builtin.exitCode
      obtain ⟨p, sp⟩ := v
      obtain ⟨p', sp'⟩ := v'
      have hp := hv.payload
      cases hp with
      | plain =>
        dsimp only
        split
        · split
          · exact alike_pure rfl
          · exact hrefuse
        · exact hrefuse
      | _ => exact hrefuse
    | @cons w w' args args' hw hrest =>
      unfold Builtin.exitCode
      dsimp only
      rw [List.length_cons, List.length_cons, List.length_cons, List.length_cons,
        hrest.length_eq]
      exact alike_refuse

theorem alike_len (hv : S.Values v v') :
    S.Alike (Builtin.run room .len [v]) (Builtin.run room' .len [v']) S.Values := by
  have hrefuse {c : Complaint} : S.Alike (Builtin.refuseAt (α := Value) c v)
      (Builtin.refuseAt c v') S.Values := alike_refuseAt hv
  unfold Builtin.run
  obtain ⟨p, sp⟩ := v
  obtain ⟨p', sp'⟩ := v'
  have hp := hv.payload
  cases hp with
  | list hl =>
    refine alike_store.bind fun s s' h => ?_
    rw [(h.elements hl).size_eq]
    exact alike_new (Value.isNew_number _)
  | plain hplain =>
    cases p with
    | list l => exact hplain.elim
    | text s => exact alike_new (Value.isNew_number _)
    | datum j =>
      dsimp only
      split
      · exact alike_new (Value.isNew_number _)
      · exact alike_fault
    | _ => exact hrefuse
  | _ => exact hrefuse

theorem alike_refuseCount {P : α → β → Prop} {c : Nat → Complaint}
    (hargs : List.Forall₂ S.Values args args') :
    S.Alike (Builtin.refuse (c args.length)) (Builtin.refuse (c args'.length)) P := by
  rw [hargs.length_eq]
  exact alike_refuse

/-- Functions of one argument refuse any other number of them. -/
theorem run_eq_refuse {f : Builtin} (hf : f ∈ [.len, .trim, .upper, .lower, .shift, .pop])
    (room : Nat) {args : List Value} (hlength : args.length ≠ 1) :
    f.run room args =
      Builtin.refuse (.argumentCount f.name (f.arity?.getD 0) args.length) := by
  match args with
  | [] => cases f <;> first | rfl | simp at hf
  | [_] => exact (hlength rfl).elim
  | _ :: _ :: _ => cases f <;> first | rfl | simp at hf

theorem alike_single (hf : f ∈ [.len, .trim, .upper, .lower, .shift, .pop])
    (hargs : List.Forall₂ S.Values args args')
    (hone : ∀ v v', S.Values v v' → S.Alike (f.run room [v]) (f.run room' [v']) S.Values) :
    S.Alike (f.run room args) (f.run room' args') S.Values := by
  by_cases hlength : args.length = 1
  · obtain ⟨v, rfl⟩ := List.length_eq_one_iff.mp hlength
    obtain ⟨v', hv, rfl⟩ : ∃ v', S.Values v v' ∧ args' = [v'] := by
      rcases hargs with _ | ⟨hv, _ | _⟩
      exact ⟨_, hv, rfl⟩
    exact hone v v' hv
  · rw [run_eq_refuse hf _ hlength, run_eq_refuse hf _ (hargs.length_eq ▸ hlength)]
    exact alike_refuseCount hargs

theorem alike_textFunction {x x' : Exec String} (g : String → String) (hx : S.Alike x x' Eq) :
    S.Alike (do return Value.text (g (← x))) (do return Value.text (g (← x'))) S.Values := by
  refine hx.bind ?_
  rintro text _ rfl
  exact alike_new (Value.isNew_text _)

theorem alike_changeCase {x x' : Exec String} (map : String → String) (hx : S.Alike x x' Eq) :
    S.Alike (do Exec.ofExcept (Builtin.changeCase map (← x)))
      (do Exec.ofExcept (Builtin.changeCase map (← x'))) S.Values := by
  refine hx.bind ?_
  rintro text _ rfl
  exact alike_ofExcept
    (results_same ((Builtin.changeCase_cases map text).imp (⟨_, ·⟩) (⟨_, ·⟩)))

theorem alike_replace (hargs : List.Forall₂ S.Values args args') :
    S.Alike (Builtin.run room .replace args) (Builtin.run room' .replace args') S.Values := by
  have hrefuse {args args' : List Value} (hargs : List.Forall₂ S.Values args args') :=
    alike_refuseCount (P := S.Values) (c := .argumentCount Builtin.replace.name 3) hargs
  rcases hargs with _ | ⟨hs, _ | ⟨hold, _ | ⟨hnew, _ | ⟨hv, hrest⟩⟩⟩⟩
  · exact hrefuse .nil
  · exact hrefuse (.cons hs .nil)
  · exact hrefuse (.cons hs (.cons hold .nil))
  · exact alike_replaced hs hold hnew
  · exact hrefuse (.cons hs (.cons hold (.cons hnew (.cons hv hrest))))

theorem alike_append (hargs : List.Forall₂ S.Values args args') :
    S.Alike (Builtin.run room .append args) (Builtin.run room' .append args') S.Values := by
  rcases hargs with _ | ⟨hv, _ | ⟨hw, hrest⟩⟩
  · exact alike_refuse
  · exact alike_refuse
  · refine (alike_needList hv).bind fun a a' ha => ?_
    have hlist (a : Array Value) (vs : List Value) : a ++ vs = a ++ vs.toArray := by
      rw [← Array.toList_inj, Array.toList_appendList, Array.toList_append]
    rw [hlist, hlist]
    exact alike_newList (ha.append (.of_forall₂ (.cons hw hrest)))

theorem alike_prepend (hargs : List.Forall₂ S.Values args args') :
    S.Alike (Builtin.run room .prepend args) (Builtin.run room' .prepend args') S.Values := by
  rcases hargs with _ | ⟨hv, _ | ⟨hw, hrest⟩⟩
  · exact alike_refuse
  · exact alike_refuse
  · refine (alike_needList hv).bind fun a a' ha => ?_
    have hfirst : Aligned S.Values _ _ := .of_forall₂ (.cons hw hrest)
    exact alike_newList (hfirst.append ha)

theorem alike_unlessEmpty {c : Complaint} {a a' : Array Value} {x x' : Exec Value}
    (ha : Aligned S.Values a a') (hv : S.Values v v') (hx : S.Alike x x' S.Values) :
    S.Alike (if a.isEmpty then Builtin.refuseAt c v else x)
      (if a'.isEmpty then Builtin.refuseAt c v' else x') S.Values := by
  rw [Array.isEmpty, Array.isEmpty, ← ha.size_eq]
  split
  · exact alike_refuseAt hv
  · exact hx

theorem alike_shift (hv : S.Values v v') :
    S.Alike (Builtin.run room .shift [v]) (Builtin.run room' .shift [v']) S.Values := by
  refine (alike_needList hv).bind fun a a' ha => ?_
  apply alike_unlessEmpty ha hv
  rw [← ha.size_eq]
  exact alike_newList (ha.extract _ _)

theorem alike_pop (hv : S.Values v v') :
    S.Alike (Builtin.run room .pop [v]) (Builtin.run room' .pop [v']) S.Values := by
  refine (alike_needList hv).bind fun a a' ha => ?_
  exact alike_unlessEmpty ha hv (alike_newList ha.pop)

theorem alike_run (hargs : List.Forall₂ S.Values args args') (hr : S.Rooms room room') :
    S.Alike (f.run room args) (f.run room' args') S.Values := by
  cases f with
  | print => exact (alike_printValues hargs hr).bind fun _ _ _ => alike_new Value.isNew_null
  | println => exact (alike_printValues hargs hr).bind fun _ _ _ => alike_new Value.isNew_null
  | scan =>
    rcases hargs with _ | ⟨hv, _ | ⟨hw, hrest⟩⟩
    · exact alike_readLine
    · refine (alike_needData hv).bind ?_
      rintro prompt _ rfl
      exact alike_readLine
    · exact alike_refuseCount (c := .tooManyArguments Builtin.scan.name) (.cons hv (.cons hw hrest))
  | len => exact alike_single (by simp) hargs fun _ _ hv => alike_len hv
  | trim =>
    exact alike_single (by simp) hargs fun _ _ hv => alike_textFunction _ (alike_needText hv)
  | upper =>
    exact alike_single (by simp) hargs fun _ _ hv => alike_changeCase _ (alike_needText hv)
  | lower =>
    exact alike_single (by simp) hargs fun _ _ hv => alike_changeCase _ (alike_needText hv)
  | replace => exact alike_replace hargs
  | append => exact alike_append hargs
  | prepend => exact alike_prepend hargs
  | shift => exact alike_single (by simp) hargs fun _ _ hv => alike_shift hv
  | pop => exact alike_single (by simp) hargs fun _ _ hv => alike_pop hv
  | exit =>
    refine (alike_exitCode hargs).bind ?_
    rintro code _ rfl
    exact alike_throw .exit

theorem alike_builtin {place place' : Span} (hplace : Spans S.Marks place place')
    (hargs : List.Forall₂ S.Values args args') (hr : S.Rooms room room') :
    S.Alike (f.call room place args) (f.call room' place' args') S.Values := by
  unfold Builtin.call
  rw [← hargs.length_eq]
  split
  · split
    · exact alike_run hargs hr
    · exact alike_fail hplace
  · exact alike_run hargs hr

end

end Lumen.Eval.Simulation
