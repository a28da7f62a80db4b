import Lumen.Node

/-!
# The parts of a node

A node is put together from tokens and from other nodes. It is ordered if all its parts lie in its
text one behind another, and so it is with the nodes among them.
-/

namespace Lumen.Node

/-- What a node is put together from. -/
inductive Part where
  | token (t : Token)
  | node (e : Node)

namespace Part

def start : Part → Position
  | token t => t.start
  | node e => e.start

def stop : Part → Position
  | token t => t.stop
  | node e => e.stop

end Part

def caseParts (cases : List (Node × Node)) (otherwise : Option Node) : List Part :=
  cases.flatMap (fun g => [.node g.1, .node g.2]) ++ otherwise.toList.map .node

/-- The tokens and nodes that the node keeps, in the order of the text. -/
def parts : Node → List Part
  | number t | text t | null t | lookup t | breakLoop t | continueLoop t => [.token t]
  | list es _ _ | block es _ _ => es.map .node
  | ternary c a b => [.node c, .node a, .node b]
  | binary a op b => [.node a, .token op, .node b]
  | unary op e => [.token op, .node e]
  | assign t e => [.token t, .node e]
  | index e i j _ => .node e :: .node i :: j.toList.map .node
  | assignIndex t i e => [.token t, .node i, .node e]
  | conditional cases otherwise _ _ => caseParts cases otherwise
  | forLoop t a b step body _ _ =>
    [.token t, .node a, .node b] ++ step.toList.map .node ++ [.node body]
  | eachLoop t e body _ _ => [.token t, .node e, .node body]
  | whileLoop c body _ _ => [.node c, .node body]
  | function name params body _ _ _ =>
    name.toList.map .token ++ params.map .token ++ [.node body]
  | call e args _ => .node e :: args.map .node
  | giveBack value _ _ => value.toList.map .node

/-! ## Nodes and their parts -/

section

variable {d : Node}

theorem mem_preorderAll {es : List Node} : d ∈ preorderAll es ↔ ∃ e ∈ es, d ∈ e.preorder := by
  induction es with
  | nil => simp [preorderAll]
  | cons e es ih => simp [preorderAll, ih]

theorem mem_preorderOption {value : Option Node} :
    d ∈ preorderOption value ↔ ∃ e ∈ value, d ∈ e.preorder := by
  cases value <;> simp [preorderOption]

theorem mem_preorderCases {cases : List (Node × Node)} :
    d ∈ preorderCases cases ↔ ∃ g ∈ cases, d ∈ g.1.preorder ∨ d ∈ g.2.preorder := by
  induction cases with
  | nil => simp [preorderCases]
  | cons g cases ih => simp [preorderCases, ih, or_assoc]

theorem node_mem_caseParts {cases : List (Node × Node)} {otherwise : Option Node} :
    .node d ∈ caseParts cases otherwise ↔ (∃ g ∈ cases, d = g.1 ∨ d = g.2) ∨ d ∈ otherwise := by
  simp [caseParts]

/-- The nodes of a tree are those that its parts lead to. -/
theorem mem_preorder {e : Node} :
    d ∈ e.preorder ↔ d = e ∨ ∃ f, .node f ∈ e.parts ∧ d ∈ f.preorder := by
  cases e with
  | conditional cases otherwise p q =>
    simp only [preorder, parts, List.mem_cons, List.mem_append, mem_preorderCases,
      mem_preorderOption, node_mem_caseParts]
    grind
  | _ => simp [preorder, parts, mem_preorderAll, mem_preorderOption, or_and_right, exists_or]

/-- The body that comes last is the last part of a conditional. -/
theorem getLast?_caseParts (c b : Node) (cases : List (Node × Node)) (otherwise : Option Node) :
    (caseParts ((c, b) :: cases) otherwise).getLast? =
      some (.node (otherwise.getD ((cases.getLast?.map Prod.snd).getD b))) := by
  cases otherwise with
  | some e => simp [caseParts, List.getLast?_cons]
  | none =>
    rcases List.eq_nil_or_concat cases with rfl | ⟨cases, g, rfl⟩ <;>
      simp [caseParts, List.getLast?_cons]

end

/-! ## Order -/

/-- The parts stand one behind another between two indexes, each from a start to an end as `K`
allows. -/
inductive InOrder (K : Position → Position → Prop) : Int → Int → List Part → Prop where
  | nil {lo hi} : lo ≤ hi → InOrder K lo hi []
  | cons {lo hi p ps} : lo ≤ p.start.index → K p.start p.stop → InOrder K p.stop.index hi ps →
      InOrder K lo hi (p :: ps)

/-- All nodes of the tree go from a start to an end as `K` allows, and their parts stand between
them in order. -/
inductive Ordered (K : Position → Position → Prop) : Node → Prop where
  | mk {e} : K e.start e.stop → InOrder K e.start.index e.stop.index e.parts →
      (∀ f, .node f ∈ e.parts → Ordered K f) → Ordered K e

/-- The node is ordered and lies between two indexes. -/
structure Within (K : Position → Position → Prop) (lo hi : Int) (e : Node) : Prop where
  ordered : e.Ordered K
  start : lo ≤ e.start.index
  stop : e.stop.index ≤ hi

/-- Parts in order, the nodes among them ordered. -/
structure Laid (K : Position → Position → Prop) (lo hi : Int) (ps : List Part) : Prop where
  inOrder : InOrder K lo hi ps
  nodes : ∀ f, .node f ∈ ps → f.Ordered K

section

variable {K : Position → Position → Prop} {lo mid hi lo' hi' : Int} {ps qs : List Part} {p : Part}
  {e : Node}

namespace InOrder

theorem mono (h : InOrder K lo hi ps) (hlo : lo' ≤ lo) (hhi : hi ≤ hi') :
    InOrder K lo' hi' ps := by
  induction h generalizing lo' with
  | nil h => exact .nil (Int.le_trans hlo (Int.le_trans h hhi))
  | cons hstart hp _ ih => exact .cons (Int.le_trans hlo hstart) hp (ih (Int.le_refl _) hhi)

theorem append (hps : InOrder K lo mid ps) (hqs : InOrder K mid hi qs) :
    InOrder K lo hi (ps ++ qs) := by
  induction hps with
  | nil h => exact hqs.mono h (Int.le_refl _)
  | cons hstart hp _ ih => exact .cons hstart hp (ih hqs)

/-- Nothing stands behind the last part. -/
theorem trim (h : InOrder K lo hi ps) (hlast : ps.getLast? = some p) :
    InOrder K lo p.stop.index ps := by
  induction h with
  | nil => cases hlast
  | @cons _ _ q ps hstart hq h ih =>
    refine .cons hstart hq ?_
    cases ps with
    | nil =>
      obtain rfl := Option.some.inj hlast
      exact .nil (Int.le_refl _)
    | cons q' ps => exact ih (by rwa [List.getLast?_cons_cons] at hlast)

variable (hK : ∀ p q, K p q → p.index < q.index)
include hK

theorem le (h : InOrder K lo hi ps) : lo ≤ hi := by
  induction h with
  | nil h => exact h
  | cons hstart hp _ ih =>
    have hlt := hK _ _ hp
    omega

theorem of_mem (h : InOrder K lo hi ps) (hp : p ∈ ps) :
    K p.start p.stop ∧ lo ≤ p.start.index ∧ p.stop.index ≤ hi := by
  induction h with
  | nil => cases hp
  | cons hstart hq h ih =>
    rcases List.mem_cons.mp hp with rfl | hp
    · exact ⟨hq, hstart, h.le hK⟩
    · obtain ⟨hpK, hle, hstop⟩ := ih hp
      have hlt := hK _ _ hq
      exact ⟨hpK, by omega, hstop⟩

theorem pairwise (h : InOrder K lo hi ps) :
    ps.Pairwise fun p q => p.stop.index ≤ q.start.index := by
  induction h with
  | nil => exact .nil
  | cons _ _ h ih => exact .cons (fun q hq => (h.of_mem hK hq).2.1) ih

end InOrder

theorem Ordered.extent (h : e.Ordered K) : K e.start e.stop := by
  cases h
  assumption

theorem Ordered.inOrder (h : e.Ordered K) : InOrder K e.start.index e.stop.index e.parts := by
  cases h
  assumption

theorem Ordered.of_mem_preorder {d : Node} (h : e.Ordered K) (hd : d ∈ e.preorder) :
    d.Ordered K := by
  induction h with
  | mk hextent hparts hnodes ih =>
    rcases mem_preorder.mp hd with rfl | ⟨f, hf, hd⟩
    · exact .mk hextent hparts hnodes
    · exact ih f hf hd

namespace Laid

theorem nil (h : lo ≤ hi) : Laid K lo hi [] := ⟨.nil h, fun _ hf => nomatch hf⟩

theorem token {t : Token} (hstart : lo ≤ t.start.index) (ht : K t.start t.stop)
    (h : Laid K t.stop.index hi ps) : Laid K lo hi (.token t :: ps) := by
  refine ⟨.cons hstart ht h.inOrder, fun f hf => ?_⟩
  rcases List.mem_cons.mp hf with hf | hf
  · cases hf
  · exact h.nodes f hf

theorem node (he : e.Within K lo mid) (h : Laid K mid hi ps) : Laid K lo hi (.node e :: ps) := by
  refine ⟨.cons he.start he.ordered.extent (h.inOrder.mono he.stop (Int.le_refl _)), fun f hf => ?_⟩
  rcases List.mem_cons.mp hf with hf | hf
  · obtain rfl := Part.node.inj hf
    exact he.ordered
  · exact h.nodes f hf

theorem mono (h : Laid K lo hi ps) (hlo : lo' ≤ lo) (hhi : hi ≤ hi') : Laid K lo' hi' ps :=
  ⟨h.inOrder.mono hlo hhi, h.nodes⟩

theorem append (hps : Laid K lo mid ps) (hqs : Laid K mid hi qs) : Laid K lo hi (ps ++ qs) := by
  refine ⟨hps.inOrder.append hqs.inOrder, fun f hf => ?_⟩
  rcases List.mem_append.mp hf with hf | hf
  · exact hps.nodes f hf
  · exact hqs.nodes f hf

theorem trim (h : Laid K lo hi ps) (hlast : ps.getLast? = some p) : Laid K lo p.stop.index ps :=
  ⟨h.inOrder.trim hlast, h.nodes⟩

theorem trim_left (h : Laid K lo hi ps) (hfirst : ps.head? = some p) :
    Laid K p.start.index hi ps := by
  refine ⟨?_, h.nodes⟩
  cases h.inOrder with
  | nil => cases hfirst
  | cons _ hq hps =>
    obtain rfl := Option.some.inj hfirst
    exact .cons (Int.le_refl _) hq hps

end Laid

/-- The texts of the parts lie in the text of the node one behind another, and all of them go from a
start to an end as `K` allows. -/
structure Orderly (K : Position → Position → Prop) (e : Node) : Prop where
  extent : K e.start e.stop
  parts : ∀ p ∈ e.parts, K p.start p.stop
  inside : ∀ p ∈ e.parts, e.start.index ≤ p.start.index ∧ p.stop.index ≤ e.stop.index
  apart : e.parts.Pairwise fun p q => p.stop.index ≤ q.start.index

theorem Ordered.orderly (h : e.Ordered K) (hK : ∀ p q, K p q → p.index < q.index) :
    e.Orderly K :=
  ⟨h.extent, fun _ hp => (h.inOrder.of_mem hK hp).1, fun _ hp => (h.inOrder.of_mem hK hp).2,
    h.inOrder.pairwise hK⟩

theorem Orderly.mono {K' : Position → Position → Prop} (h : e.Orderly K)
    (himp : ∀ p q, K p q → K' p q) : e.Orderly K' :=
  ⟨himp _ _ h.extent, fun p hp => himp _ _ (h.parts p hp), h.inside, h.apart⟩

theorem Ordered.of_laid (hextent : K e.start e.stop)
    (hparts : Laid K e.start.index e.stop.index e.parts) : e.Ordered K :=
  .mk hextent hparts.inOrder hparts.nodes

end

end Lumen.Node
