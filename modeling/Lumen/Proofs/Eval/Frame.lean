import Lumen.Proofs.Eval.Rules

/-!
# Evaluation writes one scope and new ones

Of the scopes that a store has, evaluation in the scope `c` writes no other than `c`, and what is
called writes none of them. Parents never change, and a function that was not there before keeps
the scope `c` or a new one. All this holds for any document and whatever way evaluation ends.
-/

namespace Lumen

namespace Store

/-- The other store has the scopes of the first one; all but `c` are unchanged and all have their
parents. -/
structure KeepsScopes (c : ScopeId) (s s' : Store) : Prop where
  size_le : s.scopes.size ≤ s'.scopes.size
  unchanged : ∀ d < s.scopes.size, d ≠ c → s'.scopes[d]? = s.scopes[d]?
  parent : ∀ d < s.scopes.size,
    (s'.scopes[d]?).map Scope.parent = (s.scopes[d]?).map Scope.parent

theorem size_le_addScope (s : Store) (scope : Scope) :
    s.scopes.size ≤ (s.addScope scope).scopes.size := by
  rw [addScope, Array.size_push]
  omega

namespace KeepsScopes

variable {c : ScopeId} {s s₁ s₂ s₃ : Store}

theorem refl (c : ScopeId) (s : Store) : KeepsScopes c s s :=
  ⟨Nat.le_refl _, fun _ _ _ => rfl, fun _ _ => rfl⟩

theorem of_scopes_eq (h : s₂.scopes = s₁.scopes) : KeepsScopes c s₁ s₂ :=
  ⟨Nat.le_of_eq (by rw [h]), fun _ _ _ => by rw [h], fun _ _ => by rw [h]⟩

theorem trans (h₁ : KeepsScopes c s₁ s₂) (h₂ : KeepsScopes c s₂ s₃) : KeepsScopes c s₁ s₃ := by
  refine ⟨Nat.le_trans h₁.size_le h₂.size_le, fun d hd hc => ?_, fun d hd => ?_⟩
  · have hd' : d < s₂.scopes.size := Nat.lt_of_lt_of_le hd h₁.size_le
    exact (h₂.unchanged d hd' hc).trans (h₁.unchanged d hd hc)
  · have hd' : d < s₂.scopes.size := Nat.lt_of_lt_of_le hd h₁.size_le
    exact (h₂.parent d hd').trans (h₁.parent d hd)

theorem updateTable (s : Store) (c : ScopeId) (f : Bindings → Bindings) :
    KeepsScopes c s (s.updateTable c f) := by
  refine ⟨?_, fun d hd hc => ?_, fun d hd => ?_⟩
  · simp only [Store.updateTable, Array.size_modify, Nat.le_refl]
  · rw [Store.updateTable, Array.getElem?_modify, if_neg (Ne.symm hc)]
  · rw [Store.updateTable, Array.getElem?_modify]
    split
    · rw [Option.map_map]
      rfl
    · rfl

/-- A scope that is made last is of no account to those that were there before. -/
theorem ofNewScope {scope : Scope} (h : KeepsScopes s.nextScope (s.addScope scope) s₁) :
    KeepsScopes c s s₁ := by
  have hsize : (s.addScope scope).scopes.size = s.scopes.size + 1 := Array.size_push _
  have hold (d : ScopeId) (hd : d < s.scopes.size) :
      (s.addScope scope).scopes[d]? = s.scopes[d]? := by
    rw [addScope, Array.getElem?_push, if_neg (Nat.ne_of_lt hd)]
  refine ⟨?_, fun d hd _ => ?_, fun d hd => ?_⟩
  · have hle := h.size_le
    omega
  · have hne : d ≠ s.nextScope := Nat.ne_of_lt hd
    exact (h.unchanged d (by omega) hne).trans (hold d hd)
  · exact (h.parent d (by omega)).trans (congrArg (Option.map Scope.parent) (hold d hd))

end KeepsScopes

def HoldsFunction (s : Store) (f : Closure) : Prop := ∃ v, s.Holds v ∧ v.payload = .function f

end Store

namespace Eval

/-- Evaluation starts in the scope `home` of a store with `size` scopes, and the functions that are
there are those in `known`. -/
def frame (size : Nat) (home : ScopeId) (known : Closure → Prop) : Invariant where
  Place := Unit
  loopBody := id
  functionBody := ()
  Part _ _ := True
  Open s c := size ≤ s.scopes.size ∧ (c = home ∨ size ≤ c)
  Fits _ f := known f ∨ f.scope = home ∨ size ≤ f.scope
  Leads := Store.KeepsScopes
  Breaks _ := True
  Returns _ := True
  part_inner _ _ := trivial
  breaks_of_break _ := trivial
  breaks_of_continue _ := trivial
  returns_of_giveBack _ := trivial
  returns_of_loopBody _ := trivial
  fits_function h _ := .inr h.2
  part_of_fits _ := ⟨(), trivial⟩
  leads_refl := Store.KeepsScopes.refl
  leads_trans := Store.KeepsScopes.trans
  fits_mono _ h := h
  open_mono hl h := ⟨Nat.le_trans h.1 hl.size_le, h.2⟩
  leads_bind _ _ _ := Store.KeepsScopes.updateTable _ _ _
  leads_unbind _ _ := Store.KeepsScopes.updateTable _ _ _
  leads_addList _ _ _ := Store.KeepsScopes.of_scopes_eq rfl
  leads_setElement _ _ _ _ _ _ := Store.KeepsScopes.of_scopes_eq rfl
  open_call h _ := ⟨Nat.le_trans h.1 (Store.size_le_addScope _ _), .inr h.1⟩
  fits_call _ _ h := h
  leads_call _ _ h := h.ofNewScope

/-- The value that a result carries on, that of a part or one that is given back. -/
def carried? : Except Stop (Option Value) → Option Value
  | .ok v => v
  | .error (.giveBack v) => some v
  | .error _ => none

/-- The function is in the store, or it is the value that the result carries on. -/
def Meets (r : Except Stop (Option Value)) (s : Store) (f : Closure) : Prop :=
  s.HoldsFunction f ∨ ∃ v, carried? r = some v ∧ v.payload = .function f

variable {size : Nat} {home : ScopeId} {known : Closure → Prop} {m : Machine}

theorem holds_frame (hsize : size ≤ m.store.scopes.size)
    (hknown : ∀ f, m.store.HoldsFunction f → known f) :
    (frame size home known).Holds home m.store :=
  ⟨⟨hsize, .inl rfl⟩, fun v hv f hf => .inl (hknown f ⟨v, hv, hf⟩)⟩

/-- What keeps an invariant meets no functions but those that the invariant allows. -/
theorem fits_of_meets {J : Invariant} {p : J.Place} {c : ScopeId} {x : Exec (Option Value)}
    {f : Closure} (hx : J.Keeps p c m x J.AdmitsAny) (hf : Meets (x.result m) (x.final m).store f) :
    J.Fits (x.final m).store f := by
  obtain ⟨-, hsound, hresult⟩ := hx
  rcases hf with ⟨v, hv, hp⟩ | ⟨v, hv, hp⟩
  · exact hsound v hv f hp
  · cases hr : x.result m with
    | ok w =>
      rw [hr] at hv hresult
      exact hresult v hv f hp
    | error e =>
      rw [hr] at hv hresult
      cases e with
      | giveBack w =>
        obtain rfl := Option.some.inj hv
        exact hresult.2 f hp
      | _ => cases hv

/-- The frame of a call, whose caller may as well stand in a scope that the store does not have. -/
def callFrame (s : Store) (v : Value) (args : List Value) : Invariant :=
  frame s.scopes.size s.scopes.size fun f =>
    s.HoldsFunction f ∨ ∃ w ∈ v :: args, w.payload = .function f

theorem keeps_callFrame (rounds room : Nat) (v : Value) (args : List Value) :
    (callFrame m.store v args).Keeps () m.store.scopes.size m
      (some <$> callValue room (evaluate rounds room) v args)
      (callFrame m.store v args).AdmitsAny := by
  have h : (callFrame m.store v args).Holds m.store.scopes.size m.store :=
    holds_frame (Nat.le_refl _) fun f hf => .inl hf
  have hargs (w : Value) (hw : w ∈ v :: args) : (callFrame m.store v args).Admits m.store w :=
    fun f hf => .inl (.inr ⟨w, hw, hf⟩)
  have hcall : (callFrame m.store v args).Keeps () m.store.scopes.size m
      (callValue room (evaluate rounds room) v args) (callFrame m.store v args).Admits :=
    Invariant.keeps_callValue (Invariant.evaluates _ rounds room) h
      (hargs v List.mem_cons_self) fun w hw => hargs w (List.mem_cons_of_mem _ hw)
  rw [map_eq_pure_bind]
  exact hcall.bind h fun w _ _ h' hw => Invariant.keeps_pure h' (Invariant.admitsAny_some hw)

/-- Evaluating a part in the scope `c` writes no other scope of the store; calling a value writes
none at all. What functions there are afterwards were there before or keep a scope that could be
written. -/
theorem evaluate_frame (rounds room : Nat) (m : Machine) :
    (∀ t c, let x := evaluate rounds room t c
      m.store.KeepsScopes c (x.final m).store ∧
        ∀ f, Meets (x.result m) (x.final m).store f →
          m.store.HoldsFunction f ∨ f.scope = c ∨ m.store.scopes.size ≤ f.scope) ∧
      ∀ v args, let x := some <$> callValue room (evaluate rounds room) v args
        (∀ d < m.store.scopes.size, (x.final m).store.scopes[d]? = m.store.scopes[d]?) ∧
          ∀ f, Meets (x.result m) (x.final m).store f →
            m.store.HoldsFunction f ∨ (∃ w ∈ v :: args, w.payload = .function f) ∨
              m.store.scopes.size ≤ f.scope := by
  constructor
  · intro t c
    have h : (frame m.store.scopes.size c m.store.HoldsFunction).Holds c m.store :=
      holds_frame (Nat.le_refl _) fun f hf => hf
    have hkeeps := Invariant.evaluates _ rounds room () t trivial c m h
    exact ⟨hkeeps.1, fun f hf => fits_of_meets hkeeps hf⟩
  · intro v args
    have hkeeps := keeps_callFrame (m := m) rounds room v args
    refine ⟨fun d hd => hkeeps.1.unchanged d hd (Nat.ne_of_lt hd), fun f hf => ?_⟩
    rcases fits_of_meets hkeeps hf with (hknown | hknown) | hhome | hnew
    · exact .inl hknown
    · exact .inr (.inl hknown)
    · exact .inr (.inr (Nat.le_of_eq hhome.symm))
    · exact .inr (.inr hnew)

end Eval

end Lumen
