import Lumen.Proofs.Exec
import Lumen.Proofs.Operation.Refusals

/-!
# Reading and writing the elements of a list

An access takes the element at an index, or those from one index up to another one as a new list.
It is refused where the indexes take nothing, and looks at nothing but the store. An element is put
where an access to it reads one, and slices that meet are joined to a slice.
-/

namespace Lumen

/-- The value is an index of slot `p` in a list of this length. -/
structure Value.Selects (index : Value) (length p : Nat) : Prop where
  number : ∃ x : Float, index.payload = .number x ∧ x.isFinite = true ∧ Double.truncate x = p
  lt : p < length

namespace Value

variable {index upTo last : Value} {length bound p q q' r : Nat}

theorem Selects.unique (hp : index.Selects length p) (hq : index.Selects bound q) : p = q := by
  obtain ⟨⟨x, hx, -, hxp⟩, -⟩ := hp
  obtain ⟨⟨y, hy, -, hyq⟩, -⟩ := hq
  obtain rfl : x = y := Payload.number.inj (hx.symm.trans hy)
  exact Int.ofNat_inj.mp (hxp.symm.trans hyq)

/-- An index is either good for one of the places below the bound or refused. -/
theorem checkIndex_cases (length bound : Nat) (index : Value) :
    (∃ p, index.Selects bound p ∧ checkIndex length (bound - 1) index = .ok p) ∨
      (∀ p, ¬ index.Selects bound p) ∧
        ∃ d, checkIndex length (bound - 1) index = .error (.failure d) ∧
          d.complaint.heading = .runtime := by
  unfold checkIndex
  split
  · next x hx =>
    have hx' (y : Float) (hy : index.payload = .number y) : y = x :=
      Payload.number.inj (hy.symm.trans hx)
    split
    · next hfinite =>
      dsimp only
      split
      · next hout =>
        refine .inr ⟨?_, _, rfl, rfl⟩
        rintro p ⟨⟨y, hy, -, hyp⟩, hlt⟩
        obtain rfl := hx' y hy
        omega
      · next hin =>
        refine .inl ⟨(Double.truncate x).toNat, ⟨⟨x, hx, hfinite, ?_⟩, ?_⟩, rfl⟩
        · omega
        · omega
    · next hinfinite =>
      refine .inr ⟨?_, _, rfl, rfl⟩
      rintro p ⟨⟨y, hy, hfinite, -⟩, -⟩
      obtain rfl := hx' y hy
      exact hinfinite hfinite
  · next hnumber =>
    refine .inr ⟨?_, _, rfl, rfl⟩
    rintro p ⟨⟨y, hy, -⟩, -⟩
    exact hnumber y hy

theorem Selects.checkIndex_eq (h : index.Selects bound p) :
    checkIndex length (bound - 1) index = .ok p := by
  obtain ⟨q, hq, hcheck⟩ | ⟨hnone, -⟩ := checkIndex_cases length bound index
  · rw [hcheck, h.unique hq]
  · exact absurd h (hnone p)

/-- The indexes take the slots from `p` up to `q` of a list of this length. One alone takes its own
slot; the second one may also name the end of the list. -/
inductive Takes (index : Value) (length : Nat) : Option Value → Nat → Nat → Prop
  | element {p : Nat} : index.Selects length p → Takes index length none p (p + 1)
  | slice {upTo : Value} {p q : Nat} : index.Selects length p → upTo.Selects (length + 1) q →
      p ≤ q → Takes index length (some upTo) p q

theorem Takes.selects {j : Option Value} (h : index.Takes length j p q) :
    index.Selects length p := by
  cases h <;> assumption

theorem checkSlice_of_ok (hstart : checkIndex length (length - 1) index = .ok p)
    (hstop : checkIndex length length upTo = .ok q) : checkSlice length index upTo =
      if q < p then refuseBetween (.invalidSlice p q) index upTo else .ok (p, q) := by
  simp only [checkSlice, bind, Except.bind, hstart, hstop]

/-- The end of a slice may be the end of the list. -/
theorem checkEnd_cases (length : Nat) (upTo : Value) :
    (∃ q, upTo.Selects (length + 1) q ∧ checkIndex length length upTo = .ok q) ∨
      (∀ q, ¬ upTo.Selects (length + 1) q) ∧
        ∃ d, checkIndex length length upTo = .error (.failure d) ∧
          d.complaint.heading = .runtime := by
  have hupper : ((length + 1 : Nat) : Int) - 1 = length := by omega
  have h := checkIndex_cases length (length + 1) upTo
  rwa [hupper] at h

/-- The two positions of a slice are either good or refused. -/
theorem checkSlice_cases (length : Nat) (hindex : index.span.IsKnown)
    (hupTo : upTo.span.IsKnown) :
    (∃ p q, index.Takes length (some upTo) p q ∧ checkSlice length index upTo = .ok (p, q)) ∨
      (∀ p q, ¬ index.Takes length (some upTo) p q) ∧
        ∃ d, checkSlice length index upTo = .error (.failure d) ∧
          d.complaint.heading = .runtime := by
  obtain ⟨p, hp, hstart⟩ | ⟨hnone, d, hstart, hd⟩ := checkIndex_cases length length index
  · obtain ⟨q, hq, hstop⟩ | ⟨hnone, d, hstop, hd⟩ := checkEnd_cases length upTo
    · rw [checkSlice_of_ok hstart hstop]
      split
      · next hlt =>
        obtain ⟨s, hs, -⟩ := Span.exists_join hindex.start hupTo.stop
        refine .inr ⟨?_, Diagnostic.onSpan (.invalidSlice p q) s, ?_, rfl⟩
        · intro p' q' h
          cases h with
          | slice hp' hq' hle =>
            rw [hp'.unique hp, hq'.unique hq] at hle
            exact Nat.not_lt.mpr hle hlt
        · rw [refuseBetween, hs]
      · next hle => exact .inl ⟨p, q, .slice hp hq (Nat.le_of_not_lt hle), rfl⟩
    · refine .inr ⟨fun p' q h => ?_, d, ?_, hd⟩
      · cases h with
        | slice _ hq => exact hnone q hq
      · simp only [checkSlice, bind, Except.bind, hstart, hstop]
  · refine .inr ⟨fun p q h => hnone p h.selects, d, ?_, hd⟩
    simp only [checkSlice, bind, Except.bind, hstart]

theorem Takes.checkSlice_eq (h : index.Takes length (some upTo) p q) :
    checkSlice length index upTo = .ok (p, q) := by
  cases h with
  | slice hp hq hpq =>
    obtain ⟨q', hq', hstop⟩ | ⟨hnone, -⟩ := checkEnd_cases length upTo
    · obtain rfl := hq'.unique hq
      rw [checkSlice_of_ok hp.checkIndex_eq hstop, if_neg (Nat.not_lt.mpr hpq)]
    · exact absurd hq (hnone q)

/-- Two slices, the second one from where the first one ends, make one. -/
theorem Takes.join (h : index.Takes length (some upTo) p q)
    (h' : upTo.Takes length (some last) q' r) :
    q' = q ∧ p ≤ q ∧ q ≤ r ∧ index.Takes length (some last) p r := by
  cases h with
  | slice hp hq hpq =>
    cases h' with
    | slice hq' hr hqr =>
      obtain rfl := hq'.unique hq
      exact ⟨rfl, hpq, hqr, .slice hp hr (Nat.le_trans hpq hqr)⟩

end Value

namespace Exec

variable {m : Machine} {l : ListId} {index upTo : Value} {j : Option Value}

/-- An access to one element reads its slot. -/
theorem access_element (l : ListId) (index : Value) (m : Machine) :
    (access l index none).Ends m fun r m' =>
      r = (Value.checkIndex (m.store.elements l).size ((m.store.elements l).size - 1) index).map
        (fun p => (m.store.elements l).getD p Value.null) ∧ m' = m := by
  rw [access, ends_bind, ends_store]
  dsimp only
  rw [ends_bind]
  cases Value.checkIndex (m.store.elements l).size ((m.store.elements l).size - 1) index <;>
    exact ⟨rfl, rfl⟩

/-- An access to a slice makes a new list. -/
theorem access_slice (l : ListId) (index upTo : Value) (m : Machine) :
    (access l index (some upTo)).Ends m fun r m' =>
      r = (Value.checkSlice (m.store.elements l).size index upTo).map
        (fun _ => Value.unplaced (.list m.store.nextList)) ∧
      m' = match Value.checkSlice (m.store.elements l).size index upTo with
        | .ok (p, q) => { m with store := m.store.addList ((m.store.elements l).extract p q) }
        | .error _ => m := by
  rw [access, ends_bind, ends_store]
  dsimp only
  rw [ends_bind]
  cases Value.checkSlice (m.store.elements l).size index upTo <;> exact ⟨rfl, rfl⟩

/-- Whoever reads the list at an index finds what its slot holds. -/
theorem result_access {v : Value} {p : Nat} (hp : index.Selects (m.store.elements l).size p)
    (hv : (m.store.elements l)[p]? = some v) : (access l index none).result m = .ok v := by
  rw [(access_element l index m).1, hp.checkIndex_eq, Except.map, Array.getD_eq_getD_getElem?, hv,
    Option.getD_some]

/-- Putting an element into a list either changes one slot or is refused. -/
theorem ends_assign {v : Value} {Q : Except Stop Unit → Machine → Prop}
    (hput : ∀ p, index.Selects (m.store.elements l).size p →
      Q (.ok ()) { m with store := m.store.setElement l p v })
    (hrefused : (∀ p, ¬ index.Selects (m.store.elements l).size p) →
      ∀ d, Q (.error (.failure d)) m) :
    (assign l index v).Ends m Q := by
  rw [assign, ends_bind, ends_store]
  dsimp only
  rw [ends_bind]
  obtain ⟨p, hp, hcheck⟩ | ⟨hnone, d, hcheck, -⟩ :=
    Value.checkIndex_cases _ (m.store.elements l).size index
  · rw [hcheck]
    exact hput p hp
  · rw [hcheck]
    exact hrefused hnone d

/-- Putting an element into a list at an index goes as reading it there does. -/
theorem result_assign {v : Value} :
    (assign l index v).result m = ((access l index none).result m).map fun _ => () := by
  rw [(access_element l index m).1]
  change (assign l index v).Ends m fun r _ => r = _
  rw [assign, ends_bind, ends_store]
  dsimp only
  rw [ends_bind]
  cases Value.checkIndex (m.store.elements l).size ((m.store.elements l).size - 1) index <;> rfl

theorem assign_ok_iff {v : Value} : (assign l index v).result m = .ok () ↔
    ∃ p, index.Selects (m.store.elements l).size p :=
  ends_assign (Q := fun r _ => r = .ok () ↔ _) (fun p hp => iff_of_true rfl ⟨p, hp⟩)
    fun hnone _ => iff_of_false nofun fun ⟨p, hp⟩ => hnone p hp

/-- What an access gives: the element itself, a new list of the elements taken, or a refusal of
indexes that take nothing. -/
inductive Accesses (m : Machine) (l : ListId) (index : Value) :
    Option Value → Except Stop Value → Machine → Prop
  | element {v : Value} {p q : Nat} : index.Takes (m.store.elements l).size none p q →
      (m.store.elements l)[p]? = some v → Accesses m l index none (.ok v) m
  | slice {upTo : Value} {p q : Nat} : index.Takes (m.store.elements l).size (some upTo) p q →
      Accesses m l index (some upTo) (.ok (Value.unplaced (.list m.store.nextList)))
        { m with store := m.store.addList ((m.store.elements l).extract p q) }
  | refused {j : Option Value} {d : Diagnostic} :
      (∀ p q, ¬ index.Takes (m.store.elements l).size j p q) → d.complaint.heading = .runtime →
      Accesses m l index j (.error (.failure d)) m

theorem Accesses.ok_iff {r : Except Stop Value} {m' : Machine} (h : Accesses m l index j r m') :
    (∃ v, r = .ok v) ↔ ∃ p q, index.Takes (m.store.elements l).size j p q := by
  cases h with
  | element htakes => exact ⟨fun _ => ⟨_, _, htakes⟩, fun _ => ⟨_, rfl⟩⟩
  | slice htakes => exact ⟨fun _ => ⟨_, _, htakes⟩, fun _ => ⟨_, rfl⟩⟩
  | refused hnone =>
    refine iff_of_false ?_ fun ⟨p, q, htakes⟩ => hnone p q htakes
    rintro ⟨v, ⟨⟩⟩

/-- What is read is new or an element. -/
theorem Accesses.ne_base {r : Except Stop Value} {m' : Machine} {v : Value}
    (h : Accesses m l index j r m') (hcopies : ∀ u ∈ m.store.elements l, u.payload ≠ .base)
    (hv : r = .ok v) : v.payload ≠ .base := by
  cases h with
  | element _ hread =>
    cases hv
    exact hcopies v (Array.mem_of_getElem? hread)
  | slice =>
    cases hv
    exact nofun
  | refused => cases hv

theorem accesses_access (hspans : ∀ w ∈ index :: j.toList, w.span.IsKnown) :
    (access l index j).Ends m (Accesses m l index j) := by
  cases j with
  | none =>
    refine (access_element l index m).mono ?_
    rintro _ _ ⟨rfl, rfl⟩
    obtain ⟨p, hp, hcheck⟩ | ⟨hnone, d, hcheck, hd⟩ := Value.checkIndex_cases _ _ index
    · rw [hcheck]
      refine .element (.element hp) ?_
      dsimp only
      rw [Array.getD_eq_getD_getElem?, Array.getElem?_eq_getElem hp.lt, Option.getD_some]
    · rw [hcheck]
      exact .refused (fun p q h => hnone p h.selects) hd
  | some upTo =>
    refine (access_slice l index upTo m).mono ?_
    rintro _ _ ⟨rfl, rfl⟩
    obtain ⟨p, q, htakes, hcheck⟩ | ⟨hnone, d, hcheck, hd⟩ :=
      Value.checkSlice_cases (m.store.elements l).size (hspans index List.mem_cons_self)
        (hspans upTo (by simp))
    · rw [hcheck]
      exact .slice htakes
    · rw [hcheck]
      exact .refused hnone hd

/-- An access does not look at the trace. -/
theorem access_retraced (trace : Array String) :
    (access l index j).Ends { m with trace := trace } fun r m' =>
      r = (access l index j).result m ∧
        { m' with trace := m.trace } = (access l index j).final m := by
  cases j with
  | none =>
    obtain ⟨hr, hm⟩ := access_element l index m
    refine (access_element l index _).mono ?_
    rintro _ _ ⟨rfl, rfl⟩
    exact ⟨hr.symm, hm.symm⟩
  | some upTo =>
    obtain ⟨hr, hm⟩ := access_slice l index upTo m
    refine (access_slice l index upTo _).mono ?_
    rintro _ _ ⟨rfl, rfl⟩
    refine ⟨hr.symm, Eq.trans ?_ hm.symm⟩
    dsimp only
    cases Value.checkSlice (m.store.elements l).size index upTo <;> rfl

theorem access_note (level : Nat) (message : Unit → String) :
    (access l index j).Ends (m.note level message) fun r m' =>
      r = (access l index j).result m ∧
        { m' with trace := m.trace } = (access l index j).final m := by
  unfold Machine.note
  split
  · exact access_retraced _
  · exact access_retraced m.trace

def GivesList (xs : Array Value) (r : Except Stop Value) (m' : Machine) : Prop :=
  ∃ l', r = .ok (Value.unplaced (.list l')) ∧ m'.store.elements l' = xs

theorem givesList_newList (xs : Array Value) (m : Machine) :
    (newList xs).Ends m (GivesList xs) := by
  rw [ends_newList]
  refine ⟨_, rfl, ?_⟩
  rw [Store.elements_addList, if_pos rfl]

theorem ends_slice {p q : Nat} (h : index.Takes (m.store.elements l).size (some upTo) p q) :
    (access l index (some upTo)).Ends m fun r m' =>
      r = .ok (Value.unplaced (.list m.store.nextList)) ∧
        m' = { m with store := m.store.addList ((m.store.elements l).extract p q) } := by
  have hcheck := h.checkSlice_eq
  refine (access_slice l index upTo m).mono ?_
  rintro _ _ ⟨rfl, rfl⟩
  rw [hcheck]
  exact ⟨rfl, rfl⟩

theorem apply_add_lists (l l' : ListId) :
    Operator.add.apply (Value.unplaced (.list l)) (Value.unplaced (.list l')) =
      store >>= fun s => newList (s.elements l ++ s.elements l') := rfl

/-- Two slices, the second one from where the first one ends, are joined to a list with the elements
of one slice over both. -/
theorem ends_join_slices {last : Value} {p q q' r : Nat}
    (h : index.Takes (m.store.elements l).size (some upTo) p q)
    (h' : upTo.Takes (m.store.elements l).size (some last) q' r) :
    (access l index (some last)).Ends m (GivesList ((m.store.elements l).extract p r)) ∧
      (do
        let b ← access l upTo (some last)
        let a ← access l index (some upTo)
        Operator.add.apply a b).Ends m (GivesList ((m.store.elements l).extract p r)) := by
  obtain ⟨rfl, hpq, hqr, hjoin⟩ := h.join h'
  have hpos : 0 < (m.store.elements l).size := Nat.zero_lt_of_lt h.selects.lt
  let m₁ : Machine := { m with store := m.store.addList ((m.store.elements l).extract q' r) }
  have hkept : m₁.store.elements l = m.store.elements l := Store.elements_addList_of_pos _ hpos
  refine ⟨(ends_slice hjoin).mono ?_, ?_⟩
  · rintro _ _ ⟨rfl, rfl⟩
    exact givesList_newList _ m
  · rw [ends_bind]
    refine (ends_slice h').mono ?_
    rintro _ _ ⟨rfl, rfl⟩
    dsimp only
    rw [ends_bind]
    refine (ends_slice (m := m₁) (hkept ▸ h)).mono ?_
    rintro _ _ ⟨rfl, rfl⟩
    dsimp only
    rw [apply_add_lists, ends_bind, ends_store]
    let m₂ : Machine := { m₁ with store := m₁.store.addList ((m₁.store.elements l).extract p q') }
    have ha : m₂.store.elements m₁.store.nextList = (m.store.elements l).extract p q' := by
      rw [Store.elements_addList, if_pos rfl, hkept]
    have hb : m₂.store.elements m.store.nextList = (m.store.elements l).extract q' r := by
      have hne : m.store.nextList ≠ m₁.store.nextList := by
        simp [m₁, Store.addList, Store.nextList]
      rw [Store.elements_addList, if_neg hne, Store.elements_addList, if_pos rfl]
    have hall : m₂.store.elements m₁.store.nextList ++ m₂.store.elements m.store.nextList =
        (m.store.elements l).extract p r := by
      rw [ha, hb, Array.extract_append_extract, Nat.min_eq_left hpq, Nat.max_eq_right hqr]
    exact hall ▸ givesList_newList _ m₂

end Exec

end Lumen
