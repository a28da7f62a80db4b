import Lumen.Proofs.Store.Sound

/-!
# Chains of scopes

The parents of the scopes form a tree: the scope of the whole program has no parent, and any other
scope has one that is older. So the parents of a scope, one after another, lead to the root, and no
scope is met twice. They are the scopes in which a name is looked up, and the nearest one that has
the name decides; when the name is unbound there, the next one that has it does.
-/

namespace Lumen.Store

variable {s s' : Store} {c d p : ScopeId} {chain : List ScopeId} {name : Scalar}

def parent? (s : Store) (c : ScopeId) : Option ScopeId := (s.scopes[c]?).bind Scope.parent

/-- The parents of the scope, one after another, are those of the chain, the scope itself being the
first. All are scopes of the store, and the last one has no parent. -/
inductive Chain (s : Store) : ScopeId → List ScopeId → Prop where
  | last {c : ScopeId} : c < s.scopes.size → s.parent? c = none → Chain s c [c]
  | link {c p : ScopeId} {chain : List ScopeId} : s.parent? c = some p → Chain s p chain →
      Chain s c (c :: chain)

structure IsTree (s : Store) : Prop where
  base : ∃ table, s.scopes[root]? = some ⟨rootName, none, table⟩
  /-- A parent is older than its child. -/
  older : ∀ c < s.scopes.size, c ≠ root → ∃ p < c, s.parent? c = some p

/-- The chain leads from the scope to the root, and is what names are looked up on. -/
structure Rooted (s : Store) (c : ScopeId) (chain : List ScopeId) : Prop where
  parents : s.Chain c chain
  unique : ∀ other, s.Chain c other → other = chain
  base : chain.getLast? = some root
  nodup : chain.Nodup
  /-- The nearest scope that has the name in its table decides. -/
  lookup : ∀ name, s.lookup c name = chain.findSome? fun d => s.bound? d name
  /-- When the nearest scope that has the name loses it, the next one that has it decides. -/
  uncovered : ∀ near d far name, chain = near ++ d :: far →
    (∀ e ∈ near, s.bound? e name = none) →
    (s.unbind d name).Chain c chain ∧
      (s.unbind d name).lookup c name = far.findSome? fun e => s.bound? e name

/-! ## Parents -/

theorem lt_size_of_parent? (h : s.parent? c = some p) : c < s.scopes.size := by
  obtain ⟨scope, hscope, -⟩ := Option.bind_eq_some_iff.mp h
  exact (Array.getElem?_eq_some_iff.mp hscope).1

theorem parent?_updateTable (s : Store) (c d : ScopeId) (f : Bindings → Bindings) :
    (s.updateTable c f).parent? d = s.parent? d := parent_updateTable s c d f

theorem parent?_addScope_of_lt {scope : Scope} (h : d < s.scopes.size) :
    (s.addScope scope).parent? d = s.parent? d := by
  rw [parent?, addScope, Array.getElem?_push, if_neg (Nat.ne_of_lt h), parent?]

theorem parent?_nextScope (s : Store) (scope : Scope) :
    (s.addScope scope).parent? s.nextScope = scope.parent := by
  rw [parent?, addScope, nextScope, Array.getElem?_push_size]
  rfl

/-- A scope that does not have the name asks its parent. -/
theorem lookup_eq_or (hc : c < s.scopes.size) : s.lookup c name =
    (s.bound? c name).or ((s.parent? c).bind fun p => if p < c then s.lookup p name else none) := by
  rw [Store.lookup, bound?, parent?, Array.getElem?_eq_getElem hc, Option.bind_some,
    Option.bind_some]
  dsimp only
  cases s.scopes[c].table.get? name with
  | some v => rfl
  | none => cases s.scopes[c].parent <;> rfl

/-! ## The tree -/

theorem isTree_initial : Store.initial.IsTree := by
  refine ⟨⟨builtins, rfl⟩, fun c hc hne => ?_⟩
  exact absurd (Nat.lt_one_iff.mp hc) hne

theorem IsTree.parent?_root (h : s.IsTree) : s.parent? root = none := by
  obtain ⟨table, htable⟩ := h.base
  rw [parent?, htable]
  rfl

theorem IsTree.lt_of_parent? (h : s.IsTree) (hp : s.parent? c = some p) : p < c := by
  have hne : c ≠ root := by
    rintro rfl
    cases h.parent?_root.symm.trans hp
  obtain ⟨q, hq, hparent⟩ := h.older c (lt_size_of_parent? hp) hne
  obtain rfl := Option.some.inj (hparent.symm.trans hp)
  exact hq

theorem IsTree.congr (h : s.IsTree) (hs : s'.scopes = s.scopes) : s'.IsTree := by
  obtain ⟨scopes, lists⟩ := s
  obtain ⟨scopes', lists'⟩ := s'
  obtain rfl : scopes' = scopes := hs
  exact ⟨h.base, h.older⟩

theorem IsTree.updateTable (h : s.IsTree) (c : ScopeId) (f : Bindings → Bindings) :
    (s.updateTable c f).IsTree := by
  refine ⟨?_, fun d hd hne => ?_⟩
  · obtain ⟨table, htable⟩ := h.base
    rw [Store.updateTable, Array.getElem?_modify, htable]
    split
    · exact ⟨f table, rfl⟩
    · exact ⟨table, rfl⟩
  · rw [Store.updateTable, Array.size_modify] at hd
    rw [parent?_updateTable]
    exact h.older d hd hne

theorem IsTree.addScope (h : s.IsTree) (name : String) (table : Bindings)
    (hp : p < s.scopes.size) : (s.addScope ⟨name, some p, table⟩).IsTree := by
  have hsize : (s.addScope ⟨name, some p, table⟩).scopes.size = s.scopes.size + 1 :=
    Array.size_push _
  refine ⟨?_, fun d hd hne => ?_⟩
  · obtain ⟨rootTable, hroot⟩ := h.base
    refine ⟨rootTable, ?_⟩
    have hlt := (Array.getElem?_eq_some_iff.mp hroot).1
    rw [Store.addScope, Array.getElem?_push, if_neg (Nat.ne_of_lt hlt), hroot]
  · rcases Nat.lt_succ_iff_lt_or_eq.mp (hsize ▸ hd) with hold | rfl
    · rw [parent?_addScope_of_lt hold]
      exact h.older d hold hne
    · exact ⟨p, hp, parent?_nextScope s _⟩

/-! ## Chains -/

namespace Chain

theorem unique {other : List ScopeId} (h : s.Chain c chain) (h' : s.Chain c other) :
    other = chain := by
  induction h generalizing other with
  | last _ hnone =>
    cases h' with
    | last => rfl
    | link hp => cases hnone.symm.trans hp
  | link hp _ ih =>
    cases h' with
    | last _ hnone => cases hnone.symm.trans hp
    | link hp' hrest =>
      obtain rfl := Option.some.inj (hp.symm.trans hp')
      rw [ih hrest]

theorem congr (h : s.Chain c chain) (hsize : s.scopes.size ≤ s'.scopes.size)
    (hparent : ∀ d < s.scopes.size, s'.parent? d = s.parent? d) : s'.Chain c chain := by
  induction h with
  | last hc hnone => exact .last (Nat.lt_of_lt_of_le hc hsize) ((hparent _ hc).trans hnone)
  | link hp _ ih => exact .link ((hparent _ (lt_size_of_parent? hp)).trans hp) ih

theorem unbind (h : s.Chain c chain) (d : ScopeId) (name : Scalar) :
    (s.unbind d name).Chain c chain :=
  h.congr (extends_updateTable s d _).size_scopes fun e _ => parent?_updateTable s d e _

theorem le (hs : s.IsTree) (h : s.Chain c chain) : ∀ d ∈ chain, d ≤ c := by
  induction h with
  | last => exact fun d hd => Nat.le_of_eq (List.mem_singleton.mp hd)
  | link hp _ ih =>
    refine List.forall_mem_cons.mpr ⟨Nat.le_refl _, fun d hd => ?_⟩
    exact Nat.le_trans (ih d hd) (Nat.le_of_lt (hs.lt_of_parent? hp))

theorem pairwise (hs : s.IsTree) (h : s.Chain c chain) : chain.Pairwise (· > ·) := by
  induction h with
  | last => exact List.pairwise_singleton _ _
  | link hp hrest ih =>
    refine List.pairwise_cons.mpr ⟨fun d hd => ?_, ih⟩
    exact Nat.lt_of_le_of_lt (hrest.le hs d hd) (hs.lt_of_parent? hp)

theorem getLast?_eq (hs : s.IsTree) (h : s.Chain c chain) : chain.getLast? = some root := by
  induction h with
  | @last c hc hnone =>
    by_cases hroot : c = root
    · rw [hroot]
      rfl
    · obtain ⟨p, -, hp⟩ := hs.older c hc hroot
      cases hnone.symm.trans hp
  | link _ _ ih => rw [List.getLast?_cons, ih, Option.getD_some]

theorem lookup_eq (hs : s.IsTree) (h : s.Chain c chain) (name : Scalar) :
    s.lookup c name = chain.findSome? fun d => s.bound? d name := by
  -- A parent is older than its child, so looking up a name never stops short of the root.
  induction h with
  | @last c hc hnone =>
    rw [lookup_eq_or hc, hnone, List.findSome?_cons]
    cases s.bound? c name <;> rfl
  | @link c p chain hp _ ih =>
    rw [lookup_eq_or (lt_size_of_parent? hp), hp, List.findSome?_cons, Option.bind_some,
      if_pos (hs.lt_of_parent? hp), ih]
    cases s.bound? c name <;> rfl

end Chain

theorem IsTree.exists_chain (h : s.IsTree) (hc : c < s.scopes.size) : ∃ chain, s.Chain c chain := by
  induction c using Nat.strongRecOn with
  | ind c ih =>
    by_cases hroot : c = root
    · subst hroot
      exact ⟨[root], .last hc h.parent?_root⟩
    · obtain ⟨p, hp, hparent⟩ := h.older c hc hroot
      obtain ⟨chain, hchain⟩ := ih p hp (Nat.lt_trans hp hc)
      exact ⟨c :: chain, .link hparent hchain⟩

theorem findSome?_congr {α β : Type} {f g : α → Option β} {xs : List α}
    (h : ∀ x ∈ xs, f x = g x) : xs.findSome? f = xs.findSome? g := by
  induction xs with
  | nil => rfl
  | cons x xs ih =>
    obtain ⟨hx, hxs⟩ := List.forall_mem_cons.mp h
    rw [List.findSome?_cons, List.findSome?_cons, hx, ih hxs]

theorem Chain.lookup_unbind {near far : List ScopeId} (hs : s.IsTree)
    (h : s.Chain c (near ++ d :: far)) (hnear : ∀ e ∈ near, s.bound? e name = none) :
    (s.unbind d name).lookup c name = far.findSome? fun e => s.bound? e name := by
  -- The scope that loses the name is not met again further out.
  have hfar (e : ScopeId) (he : e ∈ far) : e ≠ d := by
    have hd := List.pairwise_cons.mp (List.pairwise_append.mp (h.pairwise hs)).2.1
    exact Nat.ne_of_lt (hd.1 e he)
  have hbound (e : ScopeId) : (s.unbind d name).bound? e name =
      if e = d then none else s.bound? e name := by
    rw [bound?_unbind]
    simp only [and_true]
  have hnear' : near.findSome? (fun e => (s.unbind d name).bound? e name) = none := by
    refine List.findSome?_eq_none_iff.mpr fun e he => ?_
    rw [hbound, hnear e he, ite_self]
  have hfar' : far.findSome? (fun e => (s.unbind d name).bound? e name) =
      far.findSome? fun e => s.bound? e name :=
    findSome?_congr fun e he => (hbound e).trans (if_neg (hfar e he))
  calc (s.unbind d name).lookup c name
      = (near ++ d :: far).findSome? fun e => (s.unbind d name).bound? e name :=
        (h.unbind d name).lookup_eq (hs.updateTable d (·.erase name)) name
    _ = far.findSome? fun e => s.bound? e name := by
        rw [List.findSome?_append, hnear', Option.none_or, List.findSome?_cons, hbound, if_pos rfl,
          hfar']

theorem IsTree.exists_rooted (h : s.IsTree) (hc : c < s.scopes.size) : ∃ chain, s.Rooted c chain := by
  obtain ⟨chain, hchain⟩ := h.exists_chain hc
  refine ⟨chain, hchain, fun _ => hchain.unique, hchain.getLast?_eq h,
    (hchain.pairwise h).imp Nat.ne_of_gt, hchain.lookup_eq h, ?_⟩
  rintro near d far name rfl hnear
  exact ⟨hchain.unbind d name, hchain.lookup_unbind h hnear⟩

end Lumen.Store
