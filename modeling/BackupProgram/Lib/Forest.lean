import Mathlib

/-!
# Ordered trees

A forest is a list of trees, in first-child, next-sibling form. Its nodes are listed in pre-order.
-/

inductive Forest (α : Type) where
  | nil
  | cons (root : α) (children siblings : Forest α)
deriving DecidableEq, Repr

structure RoseTree (α : Type) where
  root : α
  children : Forest α
deriving DecidableEq, Repr

namespace Forest

variable {α β γ : Type}

def toList : Forest α → List α
  | nil => []
  | cons root children siblings => root :: (children.toList ++ siblings.toList)

def map (f : α → β) : Forest α → Forest β
  | nil => nil
  | cons root children siblings => cons (f root) (children.map f) (siblings.map f)

def ofTrees : List (RoseTree α) → Forest α
  | [] => nil
  | t :: ts => cons t.root t.children (ofTrees ts)

/-- Every node together with what it inherits from the nodes above it. -/
def inherit (f : β → α → β) : β → Forest α → Forest (β × α)
  | _, nil => nil
  | b, cons root children siblings =>
    cons (f b root, root) (children.inherit f (f b root)) (siblings.inherit f b)

/-- The nodes are replaced, in pre-order, by those of a list, as long as there are any; what is left
of the list is returned as well. -/
def refill : Forest α → List α → Forest α × List α
  | nil, as => (nil, as)
  | cons root children siblings, as =>
    let (children', as') := children.refill as.tail
    let (siblings', as'') := siblings.refill as'
    (cons (as.head?.getD root) children' siblings', as'')

@[simp] lemma toList_map (f : α → β) (t : Forest α) : (t.map f).toList = t.toList.map f := by
  induction t with
  | nil => rfl
  | cons root children siblings ihc ihs => simp [map, toList, ihc, ihs]

@[simp] lemma map_snd_inherit (f : β → α → β) (b : β) (t : Forest α) :
    (t.inherit f b).toList.map Prod.snd = t.toList := by
  induction t generalizing b with
  | nil => rfl
  | cons root children siblings ihc ihs => simp [inherit, toList, ihc, ihs]

/-- What is inherited does not depend on the nodes themselves, only on what `f` sees of them. -/
lemma inherit_map (f : β → α → β) (g : α → γ) (h : β → γ → β) (hf : ∀ b a, h b (g a) = f b a)
    (b : β) (t : Forest α) :
    (t.map g).inherit h b = (t.inherit f b).map fun p => (p.1, g p.2) := by
  induction t generalizing b with
  | nil => rfl
  | cons root children siblings ihc ihs => simp [map, inherit, hf, ihc, ihs]

lemma map_map (f : α → β) (g : β → γ) (t : Forest α) : (t.map f).map g = t.map (g ∘ f) := by
  induction t with
  | nil => rfl
  | cons root children siblings ihc ihs => simp [map, ihc, ihs]

/-- What is inherited can be left out again. -/
lemma map_inherit (f : β → α → β) (g : α → γ) (b : β) (t : Forest α) :
    (t.inherit f b).map (fun p => g p.2) = t.map g := by
  induction t generalizing b with
  | nil => rfl
  | cons root children siblings ihc ihs => simp [inherit, map, ihc, ihs]

/-- What nodes inherit in two ways stays related. -/
lemma inherit_inherit_rel {f : β → α → β} {g : γ → β × α → γ} {R : γ → β → Prop}
    {t : Forest α} (hstep : ∀ c b, ∀ a ∈ t.toList, R c b → R (g c (f b a, a)) (f b a)) {c : γ}
    {b : β}
    (h : R c b) : ∀ n ∈ ((t.inherit f b).inherit g c).toList, R n.1 n.2.1 := by
  induction t generalizing b c with
  | nil => simp [inherit, toList]
  | cons root children siblings ihc ihs =>
    simp only [toList, List.mem_cons, List.mem_append] at hstep
    have hroot := hstep c b root (.inl rfl) h
    simp only [inherit, toList, List.mem_cons, List.mem_append]
    rintro n (rfl | hn | hn)
    · exact hroot
    · exact ihc (fun c b a ha => hstep c b a (.inr (.inl ha))) hroot n hn
    · exact ihs (fun c b a ha => hstep c b a (.inr (.inr ha))) h n hn

/-- The first of two ways to inherit can be left out. -/
lemma map_inherit_inherit (f : β → α → β) (g : γ → α → γ) (b : β) (c : γ) (t : Forest α) :
    ((t.inherit f b).inherit (fun c p => g c p.2) c).map (fun n => (n.1, n.2.2)) =
      t.inherit g c := by
  induction t generalizing b c with
  | nil => rfl
  | cons root children siblings ihc ihs => simp [inherit, map, ihc, ihs]

lemma refill_spec (t : Forest α) (as : List α) (h : t.toList.length ≤ as.length) :
    (t.refill as).1.toList = as.take t.toList.length ∧
      (t.refill as).2 = as.drop t.toList.length := by
  induction t generalizing as with
  | nil => exact ⟨rfl, rfl⟩
  | cons root children siblings ihc ihs =>
    cases as with
    | nil => simp [toList] at h
    | cons a as =>
      simp only [toList, List.length_cons, List.length_append] at h
      obtain ⟨hc1, hc2⟩ := ihc as (by omega)
      obtain ⟨hs1, hs2⟩ := ihs (as.drop children.toList.length)
        (by rw [List.length_drop]; omega)
      simp only [refill, List.tail_cons, List.head?_cons, Option.getD_some, toList, hc1, hc2, hs1,
        hs2, List.length_cons, List.length_append, List.take_succ_cons, List.drop_succ_cons,
        List.drop_drop, List.take_add, and_self]

lemma map_refill (g : α → β) (t : Forest α) (as : List α) :
    (t.refill as).1.map g = ((t.map g).refill (as.map g)).1 ∧
      (t.refill as).2.map g = ((t.map g).refill (as.map g)).2 := by
  induction t generalizing as with
  | nil => exact ⟨rfl, rfl⟩
  | cons root children siblings ihc ihs =>
    obtain ⟨hc1, hc2⟩ := ihc as.tail
    obtain ⟨hs1, hs2⟩ := ihs (children.refill as.tail).2
    rw [hc2] at hs1 hs2
    have hroot : g (as.head?.getD root) = (as.map g).head?.getD (g root) := by cases as <;> rfl
    simp only [refill, map, List.map_tail] at hc1 hc2 hs1 hs2 ⊢
    exact ⟨by rw [hroot, hc1, hs1], hs2⟩

lemma refill_self (t : Forest α) (rest : List α) : t.refill (t.toList ++ rest) = (t, rest) := by
  induction t generalizing rest with
  | nil => rfl
  | cons root children siblings ihc ihs => simp [refill, toList, ihc, ihs]

end Forest

namespace RoseTree

variable {α β : Type}

def toList (t : RoseTree α) : List α := t.root :: t.children.toList

def map (f : α → β) (t : RoseTree α) : RoseTree β := ⟨f t.root, t.children.map f⟩

/-- What the root inherits is given. -/
def inherit (f : β → α → β) (b : β) (t : RoseTree α) : RoseTree (β × α) :=
  ⟨(b, t.root), t.children.inherit f b⟩

/-- As for a forest. -/
def refill (t : RoseTree α) (as : List α) : RoseTree α × List α :=
  let (children, as') := t.children.refill as.tail
  (⟨as.head?.getD t.root, children⟩, as')

lemma map_ofTrees (f : α → β) (ts : List (RoseTree α)) :
    (Forest.ofTrees ts).map f = Forest.ofTrees (ts.map (map f)) := by
  induction ts with
  | nil => rfl
  | cons t ts ih => simp [Forest.ofTrees, Forest.map, map, ih]

@[simp] lemma toList_ofTrees (ts : List (RoseTree α)) :
    (Forest.ofTrees ts).toList = ts.flatMap toList := by
  induction ts with
  | nil => rfl
  | cons t ts ih => simp [Forest.ofTrees, Forest.toList, toList, ih]

lemma mem_inherit_ofTrees {f : β → α → β} {b : β} {ts : List (RoseTree α)} {n : β × α} :
    n ∈ ((Forest.ofTrees ts).inherit f b).toList ↔
      ∃ t ∈ ts, n ∈ (t.inherit f (f b t.root)).toList := by
  induction ts with
  | nil => simp [Forest.ofTrees, Forest.inherit, Forest.toList]
  | cons t ts ih =>
    simp [Forest.ofTrees, Forest.inherit, Forest.toList, inherit, toList, ih, or_assoc]

/-- Several trees, one after the other. -/
def refillAll : List (RoseTree α) → List α → List (RoseTree α)
  | [], _ => []
  | t :: ts, as => (t.refill as).1 :: refillAll ts (t.refill as).2

@[simp] lemma toList_map (f : α → β) (t : RoseTree α) : (t.map f).toList = t.toList.map f := by
  simp [map, toList]

@[simp] lemma map_snd_inherit (f : β → α → β) (b : β) (t : RoseTree α) :
    (t.inherit f b).toList.map Prod.snd = t.toList := by
  simp [inherit, toList]

lemma refill_spec (t : RoseTree α) (as : List α) (h : t.toList.length ≤ as.length) :
    (t.refill as).1.toList = as.take t.toList.length ∧
      (t.refill as).2 = as.drop t.toList.length := by
  cases as with
  | nil => simp [toList] at h
  | cons a as =>
    obtain ⟨h1, h2⟩ := t.children.refill_spec as (by simpa [toList] using h)
    simp [refill, toList, h1, h2]

/-- Refilled with as many nodes as there are, trees have these nodes. -/
lemma flatMap_toList_refillAll (ts : List (RoseTree α)) {as : List α}
    (h : as.length = (ts.flatMap toList).length) : (refillAll ts as).flatMap toList = as := by
  induction ts generalizing as with
  | nil => simpa [refillAll] using (List.length_eq_zero_iff.mp h).symm
  | cons t ts ih =>
    rw [List.flatMap_cons, List.length_append] at h
    obtain ⟨h1, h2⟩ := t.refill_spec as (by omega)
    rw [refillAll, List.flatMap_cons, h1, h2, ih (by rw [List.length_drop]; omega),
      List.take_append_drop]

/-- Nodes that are replaced can be mapped before. -/
lemma refillAll_map (g : α → β) (ts : List (RoseTree α)) (as : List α) :
    (refillAll ts as).map (map g) = refillAll (ts.map (map g)) (as.map g) := by
  induction ts generalizing as with
  | nil => rfl
  | cons t ts ih =>
    obtain ⟨h1, h2⟩ := t.children.map_refill g as.tail
    have hroot : g (as.head?.getD t.root) = (as.map g).head?.getD (g t.root) := by
      cases as <;> rfl
    rw [List.map_tail] at h1 h2
    simp only [refillAll, refill, map, List.map_cons, ih, h1, h2, hroot]

/-- What the nodes have in common with the former ones, the trees have, too. -/
lemma map_refillAll (g : α → β) (ts : List (RoseTree α)) {as : List α}
    (h : as.map g = (ts.flatMap toList).map g) :
    (refillAll ts as).map (map g) = ts.map (map g) := by
  have hself : ∀ (ts : List (RoseTree β)), refillAll ts (ts.flatMap toList) = ts := by
    intro ts
    induction ts with
    | nil => rfl
    | cons t ts ih =>
      simp only [List.flatMap_cons, refillAll, refill, toList, List.cons_append, List.tail_cons,
        Forest.refill_self, List.head?_cons, Option.getD_some]
      rw [ih]
  rw [refillAll_map, h, List.map_flatMap]
  have hflat : ts.flatMap (fun t => t.toList.map g) = (ts.map (map g)).flatMap toList := by
    rw [List.flatMap_map]
    exact List.flatMap_congr fun t _ => (toList_map g t).symm
  rw [hflat, hself]

@[simp] lemma length_refillAll (ts : List (RoseTree α)) (as : List α) :
    (refillAll ts as).length = ts.length := by
  induction ts generalizing as with
  | nil => rfl
  | cons t ts ih => simp [refillAll, ih]

end RoseTree
