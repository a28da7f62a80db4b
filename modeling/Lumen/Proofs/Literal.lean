import Lumen.Proofs.Eval.Lists
import Lumen.Proofs.Node.Words

/-!
# Literals

The values that a program can write down as they are: null, texts, whole numbers and finite trees of
lists over them. A literal is such a value without the store and without places. Its text is what
the written form of the value shows, and is made of the words that it consists of.
-/

namespace Lumen

/-- An integer that is the value of a double. -/
structure Whole where
  value : Int
  isDouble : ∃ x : Float, Double.isWhole x ∧ Double.truncate x = value

inductive Literal where
  | null
  | text (s : String)
  | number (n : Whole)
  | list (elements : List Literal)

namespace Literal

@[elab_as_elim, induction_eliminator]
theorem induction {P : Literal → Prop} (null : P .null) (text : ∀ s, P (.text s))
    (number : ∀ n, P (.number n)) (list : ∀ ls, (∀ l ∈ ls, P l) → P (.list ls)) (l : Literal) :
    P l :=
  @Literal.rec P (fun ls => ∀ l ∈ ls, P l) null text number list (fun _ h => nomatch h)
    (fun _ _ h hs => List.forall_mem_cons.mpr ⟨h, hs⟩) l

mutual

def chars : Literal → List Char
  | null => "null".toList
  | text s => (writtenText s).toList
  | number n => (toString n.value).toList
  | list ls => '[' :: (charsOfElements ls ++ [']'])

def charsOfElements : List Literal → List Char
  | [] => []
  | l :: ls => l.chars ++ charsOfMoreElements ls

def charsOfMoreElements : List Literal → List Char
  | [] => []
  | l :: ls => ',' :: ' ' :: (l.chars ++ charsOfMoreElements ls)

end

mutual

def depth : Literal → Nat
  | list ls => depthOfElements ls
  | _ => 0

def depthOfElements : List Literal → Nat
  | [] => 0
  | l :: ls => max (l.depth + 1) (depthOfElements ls)

end

def source (l : Literal) : String := String.ofList l.chars

def natural (n : Nat) : Word := (.number, .float (Float.ofScientific n true 0))

/-- The words of an integer. No word is a negative number, so the sign is a word. -/
def integer : Int → List Word
  | .ofNat n => [natural n]
  | .negSucc n => [.operator "-", natural (n + 1)]

mutual

def words : Literal → List Word
  | null => [.keyword "null"]
  | text s => [(.text, .text s)]
  | number n => integer n.value
  | list ls => .bracket "[" :: (wordsOfElements ls ++ [.bracket "]"])

def wordsOfElements : List Literal → List Word
  | [] => []
  | l :: ls => l.words ++ wordsOfMoreElements ls

def wordsOfMoreElements : List Literal → List Word
  | [] => []
  | l :: ls => .bracket "," :: (l.words ++ wordsOfMoreElements ls)

end

section

variable {l : Literal} {ls : List Literal}

theorem charsOfElements_cons (l : Literal) (ls : List Literal) :
    charsOfElements (l :: ls) = [',', ' '].intercalate ((l :: ls).map chars) := by
  rw [charsOfElements]
  induction ls generalizing l with
  | nil => simp [charsOfMoreElements]
  | cons k ls ih =>
    rw [charsOfMoreElements, ih, List.map_cons, List.map_cons, List.map_cons,
      List.intercalate_cons_cons]
    simp

theorem charsOfElements_eq (ls : List Literal) :
    charsOfElements ls = [',', ' '].intercalate (ls.map chars) := by
  cases ls with
  | nil => rfl
  | cons l ls => exact charsOfElements_cons l ls

/-- What each element has to do with its partner. -/
theorem forall₂_of_elements {α : Type} {R P : Literal → α → Prop} {as : List α}
    (has : List.Forall₂ R ls as) (h : ∀ l ∈ ls, ∀ {a}, R l a → P l a) : List.Forall₂ P ls as := by
  have hboth := (List.forall₂_and_left ls as).mpr ⟨fun l hl => hl, has⟩
  exact hboth.imp fun l a hl => h l hl.1 hl.2

theorem depth_lt_of_mem (h : l ∈ ls) : l.depth < (list ls).depth := by
  rw [depth]
  induction ls with
  | nil => cases h
  | cons k ls ih =>
    rw [depthOfElements]
    rcases List.mem_cons.mp h with rfl | h
    · omega
    · have hlt := ih h
      omega

end

end Literal

namespace Store

/-- In the store the value is the literal. -/
inductive Shows (s : Store) : Literal → Value → Prop where
  | null {sp} : Shows s .null ⟨.null, sp⟩
  | text {t sp} : Shows s (.text t) ⟨.text t, sp⟩
  | number {n x sp} : Double.isWhole x → Double.truncate x = n.value →
      Shows s (.number n) ⟨.number x, sp⟩
  | list {ls l vs sp} : s.lists[l]? = some vs → List.Forall₂ (Shows s) ls vs.toList →
      Shows s (.list ls) ⟨.list l, sp⟩

section

variable {s s' : Store} {l : Literal} {ls : List Literal} {v : Value}

theorem lt_size_of_getElem? {k : ListId} {vs : Array Value} (h : s.lists[k]? = some vs) :
    k < s.lists.size := (Array.getElem?_eq_some_iff.mp h).1

theorem elements_of_getElem? {k : ListId} {vs : Array Value} (h : s.lists[k]? = some vs) :
    s.elements k = vs := by
  rw [elements, h, Option.getD_some]

/-- What is computed from each element is computed from the literals. -/
theorem map_eq_of_shows {α : Type} {f : Literal → α} {g : Value → α} {vs : List Value}
    (hvs : List.Forall₂ s.Shows ls vs) (h : ∀ l ∈ ls, ∀ {v}, s.Shows l v → f l = g v) :
    ls.map f = vs.map g := by
  rw [← List.forall₂_eq_eq_eq, List.forall₂_map_left_iff, List.forall₂_map_right_iff]
  exact Literal.forall₂_of_elements hvs h

/-- The value is the literal as long as no element is assigned to. -/
theorem Shows.keeps (h : s.Shows l v) (hs : s.KeepsLists s') : s'.Shows l v := by
  induction l generalizing v with
  | null =>
    cases h
    exact .null
  | text t =>
    cases h
    exact .text
  | number n =>
    cases h with
    | number hx hn => exact .number hx hn
  | list ls ih =>
    cases h with
    | list hvs hls =>
      refine .list ((hs.unchanged _ (lt_size_of_getElem? hvs)).trans hvs) ?_
      exact Literal.forall₂_of_elements hls fun l hl _ h => ih l hl h

/-! ## The text of a literal -/

theorem findSome?_tooDeep (room : Nat) (ls : List Literal) :
    (ls.map fun l => if l.depth < room then none else some Obstacle.tooDeep).findSome? id =
      if (Literal.list ls).depth < room + 1 then none else some .tooDeep := by
  rw [Literal.depth]
  induction ls with
  | nil => rfl
  | cons l ls ih =>
    rw [List.map_cons, List.findSome?_cons, Literal.depthOfElements, ih]
    by_cases hl : l.depth < room
    · have hmax : max (l.depth + 1) (Literal.depthOfElements ls) < room + 1 ↔
          Literal.depthOfElements ls < room + 1 := by omega
      simp only [if_pos hl, id, hmax]
    · have hdeep : ¬ max (l.depth + 1) (Literal.depthOfElements ls) < room + 1 := by omega
      rw [if_neg hl, if_neg hdeep]
      rfl

theorem Shows.obstacle?_eq (h : s.Shows l v) (room : Nat) :
    s.obstacle? .written room v = if l.depth < room then none else some .tooDeep := by
  induction l generalizing v room with
  | list ls ih =>
    obtain _ | room := room
    · exact (if_neg (Nat.not_lt_zero _)).symm
    cases h with
    | list hvs hls =>
      have helements := map_eq_of_shows hls fun l hl v h => (ih l hl h room).symm
      change List.findSome? (s.obstacle? .written room) (s.elements _).toList = _
      rw [elements_of_getElem? hvs, ← findSome?_tooDeep, helements, List.findSome?_map]
      rfl
  | _ =>
    obtain _ | room := room
    · exact (if_neg (Nat.not_lt_zero _)).symm
    cases h
    exact (if_pos (Nat.succ_pos _)).symm

theorem Shows.textWithin_eq (h : s.Shows l v) {room : Nat} (hroom : l.depth < room) :
    s.textWithin .written room v = l.source := by
  induction l generalizing v room with
  | null =>
    obtain _ | room := room
    · exact absurd hroom (Nat.not_lt_zero _)
    cases h
    rfl
  | text t =>
    obtain _ | room := room
    · exact absurd hroom (Nat.not_lt_zero _)
    cases h
    exact String.ofList_toList.symm
  | number n =>
    obtain _ | room := room
    · exact absurd hroom (Nat.not_lt_zero _)
    cases h with
    | @number n x sp hx hn =>
      change Decimal.numberText x = _
      rw [Decimal.numberText, if_pos hx, hn, Literal.source, Literal.chars, String.ofList_toList]
  | list ls ih =>
    obtain _ | room := room
    · exact absurd hroom (Nat.not_lt_zero _)
    cases h with
    | list hvs hls =>
      have hdepth {l : Literal} (hl : l ∈ ls) : l.depth < room :=
        Nat.lt_of_lt_of_le (Literal.depth_lt_of_mem hl) (Nat.le_of_lt_succ hroom)
      have helements := map_eq_of_shows hls fun l hl v h => (ih l hl h (hdepth hl)).symm
      change "[" ++ String.intercalate ", " ((s.elements _).toList.map _) ++ "]" = _
      rw [elements_of_getElem? hvs, ← helements]
      apply String.toList_inj.mp
      rw [Literal.source, Literal.chars, Literal.charsOfElements_eq]
      simp [Literal.source, Function.comp_def]

/-- The value has the text of the literal, if there is room. -/
theorem Shows.text?_eq (h : s.Shows l v) (room : Nat) : s.text? .written room v =
    if l.depth < room then .ok l.source else .error .tooDeep := by
  rw [text?, h.obstacle?_eq]
  split
  · next heq =>
    split at heq
    · next hroom => rw [h.textWithin_eq hroom, if_pos hroom]
    · cases heq
  · next heq =>
    split at heq
    · cases heq
    · next hroom =>
      cases heq
      rw [if_neg hroom]

end

end Store

end Lumen
