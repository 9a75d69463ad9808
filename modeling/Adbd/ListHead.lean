import Mathlib.Algebra.BigOperators.Group.Finset.Basic
import Mathlib.Data.Fintype.Basic
import Mathlib.Data.List.Chain
import Mathlib.Data.List.Nodup
import Mathlib.Logic.Function.Basic
import Mathlib.Tactic.Common

/-!
# Intrusive Circular Lists

The kernel's `struct list_head`: a node is a pair of links embedded in its owner, a list is
a circle of nodes through a head that belongs to no element, and a node that is on no list
points to itself. Here the links of all nodes are one memory over an arbitrary type of
nodes, and the operations are the pointer assignments `list.h` documents.

A family of lists with heads `head i` and elements `elem x` in one memory is described by
the list of elements of each head. Every operation is characterised by what it does to
these lists, so a user of the module never looks at a link again.

## Main definitions

* `Links`: the links of all nodes; `initListHead`, `listAddTail`, `listDel`,
  `listDelInit`, `listEmpty`: the operations.
* `Ring m h l`: the circle through `h` runs through the nodes `l`.
* `Rings m q`: the list of every head `i` holds the elements `q i`, and no element is on
  two lists.

## Main results

* `Rings.addTail`, `Rings.del`, `Rings.delInit`, `Rings.initElem`: the operations on the
  lists of elements.
* `Rings.listEmpty_head`, `Rings.next_head`, `Rings.prev_head_eq_elem`,
  `Rings.next_eq_prev_head`: what the links of a head say.
* `Ordered.append`, `Ordered.erase`, `Ordered.move`: the order of two elements.
* `total_append`, `total_erase`: the number of elements on all lists.
-/

namespace ListHead

variable {α : Type}

/-- The link fields `next` and `prev` of every node. -/
structure Links (α : Type) where
  next : α → α
  prev : α → α

namespace Links

variable [DecidableEq α]

/-- `INIT_LIST_HEAD`: the node points to itself. -/
def initListHead (m : Links α) (x : α) : Links α :=
  { next := Function.update m.next x x, prev := Function.update m.prev x x }

/-- `list_empty`. -/
def listEmpty (m : Links α) (h : α) : Bool := m.next h == h

/-- `__list_add`: link `new` between two neighbours. -/
def listAdd (m : Links α) (new before after : α) : Links α :=
  { next := Function.update (Function.update m.next new after) before new
    prev := Function.update (Function.update m.prev after new) new before }

/-- `list_add_tail`: link `new` before the head. -/
def listAddTail (m : Links α) (new h : α) : Links α := m.listAdd new (m.prev h) h

/-- `list_del`: close the circle over the node. Its own links are left as they are; the
kernel poisons them, and they are not read again before they are written. -/
def listDel (m : Links α) (x : α) : Links α :=
  { next := Function.update m.next (m.prev x) (m.next x)
    prev := Function.update m.prev (m.next x) (m.prev x) }

/-- `list_del_init`. -/
def listDelInit (m : Links α) (x : α) : Links α := (m.listDel x).initListHead x

end Links

/-! ### Walks along one link field -/

section Walk

variable {f g : α → α} {a b e n : α} {A B L : List α}

/-- Following `f` from each node of the list leads to the next one. -/
def Walk (f : α → α) (L : List α) : Prop := L.IsChain fun x y => f x = y

/-- A walk depends on the links of all its nodes but the last. -/
theorem Walk.congr (h : Walk f L) (hg : ∀ x ∈ L.dropLast, g x = f x) : Walk g L := by
  induction L with
  | nil => exact .nil
  | cons x L ih =>
      cases L with
      | nil => exact .singleton x
      | cons y L =>
          obtain ⟨hxy, hrest⟩ := List.isChain_cons_cons.mp h
          refine List.isChain_cons_cons.mpr ⟨(hg x (by simp)).trans hxy,
            ih hrest fun z hz => ?_⟩
          exact hg z (by simpa using .inr hz)

/-- A walk through two neighbours, in parts. -/
theorem walk_split :
    Walk f (A ++ a :: b :: B) ↔ Walk f (A ++ [a]) ∧ f a = b ∧ Walk f (b :: B) :=
  List.isChain_append_cons_cons

/-- Linking a new node between two neighbours of a walk. -/
theorem Walk.insert (h : Walk f (A ++ a :: b :: B)) (hA : ∀ x ∈ A, x ≠ a ∧ x ≠ n)
    (hB : ∀ x ∈ (b :: B).dropLast, x ≠ a ∧ x ≠ n) (hga : g a = n) (hgn : g n = b)
    (hg : ∀ x, x ≠ a → x ≠ n → g x = f x) : Walk g (A ++ a :: n :: b :: B) := by
  obtain ⟨hA', -, hB'⟩ := walk_split.mp h
  refine walk_split.mpr ⟨hA'.congr fun x hx => ?_, hga, List.isChain_cons_cons.mpr ⟨hgn, ?_⟩⟩
  · rw [List.dropLast_concat] at hx
    exact hg x (hA x hx).1 (hA x hx).2
  · exact hB'.congr fun x hx => hg x (hB x hx).1 (hB x hx).2

/-- Taking a node out of a walk. -/
theorem Walk.remove (h : Walk f (A ++ a :: e :: b :: B)) (hA : ∀ x ∈ A, x ≠ a)
    (hB : ∀ x ∈ (b :: B).dropLast, x ≠ a) (hga : g a = b) (hg : ∀ x, x ≠ a → x ≠ e → g x = f x)
    (hAe : ∀ x ∈ A, x ≠ e) (hBe : ∀ x ∈ (b :: B).dropLast, x ≠ e) :
    Walk g (A ++ a :: b :: B) := by
  obtain ⟨hA', -, heb⟩ := walk_split.mp h
  obtain ⟨-, hB'⟩ := List.isChain_cons_cons.mp heb
  refine walk_split.mpr ⟨hA'.congr fun x hx => ?_, hga, ?_⟩
  · rw [List.dropLast_concat] at hx
    exact hg x (hA x hx) (hAe x hx)
  · exact Walk.congr hB' fun x hx => hg x (hB x hx) (hBe x hx)

end Walk

/-! ### One circle -/

/-- The circle through the head `h` runs through the nodes `l`, forwards along `next` and
backwards along `prev`, and meets no node twice. -/
structure Ring (m : Links α) (h : α) (l : List α) : Prop where
  next : Walk m.next (h :: (l ++ [h]))
  prev : Walk m.prev (h :: (l.reverse ++ [h]))
  nodup : (h :: l).Nodup

variable {m m' : Links α} {h x n e : α} {l l₁ l₂ : List α}

/-- A circle depends on the links of its own nodes. -/
theorem Ring.congr (hr : Ring m h l) (hn : ∀ x ∈ h :: l, m'.next x = m.next x)
    (hp : ∀ x ∈ h :: l, m'.prev x = m.prev x) : Ring m' h l where
  next := hr.next.congr fun x hx => hn x (by
    rw [← List.cons_append, List.dropLast_concat] at hx
    exact hx)
  prev := hr.prev.congr fun x hx => hp x (by
    rw [← List.cons_append, List.dropLast_concat] at hx
    simpa using hx)
  nodup := hr.nodup

/-- The empty circle. -/
theorem ring_nil : Ring m h [] ↔ m.next h = h ∧ m.prev h = h := by
  constructor
  · intro hr
    exact ⟨by simpa [Walk] using hr.next, by simpa [Walk] using hr.prev⟩
  · rintro ⟨hn, hp⟩
    exact ⟨by simpa [Walk] using hn, by simpa [Walk] using hp, by simp⟩

/-- The link forward from the head. -/
theorem Ring.next_head (hr : Ring m h l) : m.next h = (l ++ [h]).head (by simp) := by
  have hw := hr.next
  cases l with
  | nil => simpa [Walk] using hw
  | cons x l => exact (List.isChain_cons_cons.mp hw).1

/-- The link backward from the head. -/
theorem Ring.prev_head (hr : Ring m h l) : m.prev h = (h :: l).getLast (by simp) := by
  have hw := hr.prev
  rcases List.eq_nil_or_concat' l with rfl | ⟨l', x, rfl⟩
  · simpa [Walk] using hw
  · rw [List.reverse_append] at hw
    simpa using (List.isChain_cons_cons.mp hw).1

/-- The neighbours of a node of the circle. -/
theorem Ring.neighbours (hr : Ring m h (l₁ ++ e :: l₂)) :
    m.prev e = (h :: l₁).getLast (by simp) ∧ m.next e = (l₂ ++ [h]).head (by simp) := by
  constructor
  · have hw := hr.prev
    rcases List.eq_nil_or_concat' l₁ with rfl | ⟨l', x, rfl⟩
    · have hw' : Walk m.prev (h :: l₂.reverse ++ e :: h :: []) := by simpa using hw
      simpa using (walk_split.mp hw').2.1
    · have hw' : Walk m.prev (h :: l₂.reverse ++ e :: x :: (l'.reverse ++ [h])) := by
        simpa using hw
      simpa using (walk_split.mp hw').2.1
  · have hw := hr.next
    cases l₂ with
    | nil =>
        have hw' : Walk m.next (h :: l₁ ++ e :: h :: []) := by simpa using hw
        simpa using (walk_split.mp hw').2.1
    | cons y l₂ =>
        have hw' : Walk m.next (h :: l₁ ++ e :: y :: (l₂ ++ [h])) := by simpa using hw
        simpa using (walk_split.mp hw').2.1

/-- A walk to `h` that meets `h` only at its end is determined by where it starts. -/
theorem Walk.unique {f : α → α} {x : α} {l' : List α} (hw : Walk f (x :: (l ++ [h])))
    (hw' : Walk f (x :: (l' ++ [h]))) (hl : h ∉ l) (hl' : h ∉ l') : l = l' := by
  induction l generalizing x l' with
  | nil =>
      cases l' with
      | nil => rfl
      | cons y l' =>
          have hx : f x = h := (List.isChain_cons_cons.mp hw).1
          have hy : f x = y := (List.isChain_cons_cons.mp hw').1
          exact absurd (List.mem_cons.mpr (.inl (hx.symm.trans hy))) hl'
  | cons y l ih =>
      obtain ⟨hy, hrest⟩ := List.isChain_cons_cons.mp hw
      cases l' with
      | nil =>
          have hx : f x = h := (List.isChain_cons_cons.mp hw').1
          exact absurd (List.mem_cons.mpr (.inl (hx.symm.trans hy))) hl
      | cons y' l' =>
          obtain ⟨hy', hrest'⟩ := List.isChain_cons_cons.mp hw'
          obtain rfl := hy.symm.trans hy'
          exact congrArg _ (ih hrest hrest' (fun hm => hl (List.mem_cons_of_mem _ hm))
            fun hm => hl' (List.mem_cons_of_mem _ hm))

/-- `list_add_tail` puts a node that is not in the circle at its end. -/
theorem Ring.addTail [DecidableEq α] (hr : Ring m h l) (hn : n ∉ h :: l) :
    Ring (m.listAddTail n h) h (l ++ [n]) := by
  obtain ⟨A, p, hA⟩ : ∃ A p, h :: l = A ++ [p] :=
    ⟨_, _, (List.dropLast_append_getLast (List.cons_ne_nil h l)).symm⟩
  have hp : m.prev h = p := by
    rw [hr.prev_head]
    simp [hA]
  have hnodup := hr.nodup
  rw [hA] at hnodup hn
  have hne : n ≠ h := by
    rintro rfl
    exact hn (hA ▸ List.mem_cons_self ..)
  have hnp : n ≠ p := fun h => hn (by simp [h])
  refine ⟨?_, ?_, ?_⟩
  · have hw : Walk m.next (A ++ p :: h :: []) := by
      have := hr.next
      rw [← List.cons_append, hA] at this
      simpa using this
    have hA' (x : α) (hx : x ∈ A) : x ≠ p ∧ x ≠ n := by
      refine ⟨?_, fun h => hn (by simp [← h, hx])⟩
      rintro rfl
      exact List.disjoint_of_nodup_append hnodup hx (List.mem_singleton_self _)
    have hw' := hw.insert (g := (m.listAddTail n h).next) hA' (by simp)
      (by simp [Links.listAddTail, Links.listAdd, hp])
      (by simp [Links.listAddTail, Links.listAdd, hp, hnp])
      fun x hxp hxn => by simp [Links.listAddTail, Links.listAdd, hp, hxp, hxn]
    have heq : h :: (l ++ [n] ++ [h]) = A ++ p :: n :: h :: [] := by
      rw [← List.cons_append, ← List.cons_append, hA]
      simp
    rw [heq]
    exact hw'
  · have hmem (x : α) (hx : x ∈ l.reverse) : x ≠ h ∧ x ≠ n := by
      constructor
      · rintro rfl
        exact (List.nodup_cons.mp hr.nodup).1 (by simpa using hx)
      · rintro rfl
        exact hn (hA ▸ List.mem_cons_of_mem _ (by simpa using hx))
    obtain ⟨b, B, hB⟩ : ∃ b B, l.reverse ++ [h] = b :: B :=
      List.exists_cons_of_ne_nil (by simp)
    have hw : Walk m.prev ([] ++ h :: b :: B) := by
      have := hr.prev
      rwa [hB] at this
    have hb : m.prev h = b := (walk_split.mp hw).2.1
    have hdrop : (b :: B).dropLast = l.reverse := by
      rw [← hB, List.dropLast_concat]
    have hw' := hw.insert (g := (m.listAddTail n h).prev) (n := n) (by simp)
      (by rw [hdrop]; exact hmem)
      (by simp [Links.listAddTail, Links.listAdd, hne.symm])
      (by simp [Links.listAddTail, Links.listAdd, hb])
      fun x hxp hxn => by simp [Links.listAddTail, Links.listAdd, hxp, hxn]
    have heq : h :: ((l ++ [n]).reverse ++ [h]) = [] ++ h :: n :: b :: B := by
      simp [hB]
    rw [heq]
    exact hw'
  · rw [← List.cons_append, hA]
    exact List.nodup_append.mpr ⟨hnodup, by simp, fun x hx y hy hxy => by
      rw [List.mem_singleton.mp hy] at hxy
      exact hn (hxy ▸ hx)⟩

/-- `list_del` takes a node out of the circle. -/
theorem Ring.del [DecidableEq α] (hr : Ring m h (l₁ ++ e :: l₂)) :
    Ring (m.listDel e) h (l₁ ++ l₂) := by
  obtain ⟨A, a, hA⟩ : ∃ A a, h :: l₁ = A ++ [a] :=
    ⟨_, _, (List.dropLast_append_getLast (List.cons_ne_nil h l₁)).symm⟩
  obtain ⟨b, B, hB⟩ : ∃ b B, l₂ ++ [h] = b :: B := List.exists_cons_of_ne_nil (by simp)
  have hArev : l₁.reverse ++ [h] = a :: A.reverse := by
    simpa using congrArg List.reverse hA
  have hBrev : h :: l₂.reverse = B.reverse ++ [b] := by
    simpa using congrArg List.reverse hB
  obtain ⟨hprev, hnext⟩ := hr.neighbours
  replace hprev : m.prev e = a := by simpa [hA] using hprev
  replace hnext : m.next e = b := by simpa [hB] using hnext
  -- the nodes before and after `e`, and `e` itself, are different nodes
  have hnd := hr.nodup
  rw [← List.cons_append, List.nodup_append] at hnd
  obtain ⟨hnd₁, hnd₂, hdis⟩ := hnd
  have hndA : (A ++ [a]).Nodup := hA ▸ hnd₁
  have ha : a ∈ h :: l₁ := by simp [hA]
  have hhe : e ≠ h := fun hh => hdis h (by simp) e (by simp) hh.symm
  have hmemA (x : α) (hx : x ∈ A) : x ∈ h :: l₁ := by simp [hA, hx]
  have hb : b ∈ l₂ ++ [h] := by simp [hB]
  have hdropB : (b :: B).dropLast = l₂ := by rw [← hB, List.dropLast_concat]
  have hdropA : (a :: A.reverse).dropLast = l₁.reverse := by rw [← hArev, List.dropLast_concat]
  have hBnd : (B.reverse ++ [b]).Nodup := by
    rw [← hBrev, List.nodup_cons]
    refine ⟨fun hh => hdis h (by simp) h (by simp at hh ⊢; exact .inr hh) rfl, ?_⟩
    exact List.nodup_reverse.mpr (List.nodup_cons.mp hnd₂).2
  refine ⟨?_, ?_, ?_⟩
  · have hw : Walk m.next (A ++ a :: e :: b :: B) := by
      have := hr.next
      rw [List.append_assoc, ← List.cons_append, hA, List.cons_append, hB] at this
      simpa using this
    have hw' := hw.remove (g := (m.listDel e).next)
      (fun x hx => by
        rintro rfl
        exact List.disjoint_of_nodup_append hndA hx (List.mem_singleton_self _))
      (fun x hx => fun hxa => hdis a ha x (by rw [hdropB] at hx; simp [hx]) hxa.symm)
      (by simp [Links.listDel, hprev, hnext])
      (fun x hxa _ => by simp [Links.listDel, hprev, hxa])
      (fun x hx => hdis x (hmemA x hx) e (by simp))
      (fun x hx => by
        rintro rfl
        exact (List.nodup_cons.mp hnd₂).1 (hdropB ▸ hx))
    rw [List.append_assoc, ← List.cons_append, hA, hB]
    simpa using hw'
  · have hw : Walk m.prev (B.reverse ++ b :: e :: a :: A.reverse) := by
      have := hr.prev
      have heq : h :: ((l₁ ++ e :: l₂).reverse ++ [h]) =
          (h :: l₂.reverse) ++ e :: (l₁.reverse ++ [h]) := by simp
      rw [heq, hArev, hBrev] at this
      simpa using this
    have hw' := hw.remove (g := (m.listDel e).prev)
      (fun x hx => by
        rintro rfl
        exact List.disjoint_of_nodup_append hBnd hx (List.mem_singleton_self _))
      (fun x hx => by
        rintro rfl
        rw [hdropA, List.mem_reverse] at hx
        rcases List.mem_append.mp hb with hb | hb
        · exact hdis _ (List.mem_cons_of_mem _ hx) _ (List.mem_cons_of_mem _ hb) rfl
        · exact (List.nodup_cons.mp hnd₁).1 (List.mem_singleton.mp hb ▸ hx))
      (by simp [Links.listDel, hprev, hnext])
      (fun x hxb _ => by simp [Links.listDel, hnext, hxb])
      (fun x hx => by
        rintro rfl
        have hmem : x ∈ h :: l₂.reverse := by simp [hBrev, List.mem_reverse.mp hx]
        rcases List.mem_cons.mp hmem with hmem | hmem
        · exact hhe hmem
        · exact (List.nodup_cons.mp hnd₂).1 (List.mem_reverse.mp hmem))
      (fun x hx => by
        rw [hdropA, List.mem_reverse] at hx
        exact hdis x (List.mem_cons_of_mem _ hx) e (by simp))
    have heq : h :: ((l₁ ++ l₂).reverse ++ [h]) = (h :: l₂.reverse) ++
      (l₁.reverse ++ [h]) := by
      simp
    rw [heq, hArev, hBrev]
    simpa using hw'
  · rw [← List.cons_append]
    refine List.nodup_append.mpr ⟨hnd₁, (List.nodup_cons.mp hnd₂).2, fun x hx y hy => ?_⟩
    exact hdis x hx y (List.mem_cons_of_mem _ hy)

/-! ### A family of lists in one memory -/

/-- The nodes of a family of lists: the head of each list, and the node of each element. -/
inductive Node (ι τ : Type) where
  | head (i : ι)
  | elem (x : τ)
deriving DecidableEq, Repr

variable {ι τ : Type}

/-- The list of every head `i` holds the elements `q i`, and no element is on two lists. -/
structure Rings (m : Links (Node ι τ)) (q : ι → List τ) : Prop where
  ring : ∀ i, Ring m (.head i) ((q i).map .elem)
  disjoint : ∀ {i j x}, x ∈ q i → x ∈ q j → i = j

namespace Rings

variable {m m' : Links (Node ι τ)} {q : ι → List τ} {i j : ι} {x y : τ}

/-- No element is on a list twice. -/
theorem nodup (h : Rings m q) (i : ι) : (q i).Nodup :=
  (List.nodup_cons.mp (h.ring i).nodup).2.of_map _

/-- The links determine the contents of the lists. -/
theorem unique {q' : ι → List τ} (h : Rings m q) (h' : Rings m q') : q = q' := by
  funext i
  have hmap := (h.ring i).next.unique (h'.ring i).next (List.nodup_cons.mp (h.ring i).nodup).1
    (List.nodup_cons.mp (h'.ring i).nodup).1
  exact List.map_injective_iff.mpr (fun _ _ => Node.elem.inj) hmap

/-- `list_empty` of a head. -/
theorem listEmpty_head [DecidableEq ι] [DecidableEq τ] (h : Rings m q) :
    m.listEmpty (.head i) = true ↔ q i = [] := by
  rw [Links.listEmpty, beq_iff_eq, (h.ring i).next_head]
  cases q i with
  | nil => simp
  | cons x l => simp

/-- The first element of a list. -/
theorem next_head {l : List τ} (h : Rings m q) (hq : q i = x :: l) :
    m.next (.head i) = .elem x := by
  rw [(h.ring i).next_head]
  simp [hq]

/-- The last element of a list. -/
theorem prev_head_eq_elem (h : Rings m q) :
    m.prev (.head i) = .elem x ↔ (q i).getLast? = some x := by
  rw [(h.ring i).prev_head]
  rcases List.eq_nil_or_concat' (q i) with hq | ⟨l, y, hq⟩
  · simp [hq]
  · simp [hq]

/-- The two links of a head agree if it has at most one element. -/
theorem next_eq_prev_head (h : Rings m q) :
    m.next (.head i) = m.prev (.head i) ↔ (q i).length ≤ 1 := by
  have hnd := h.nodup i
  rw [(h.ring i).next_head, (h.ring i).prev_head]
  match hq : q i with
  | [] => simp
  | [x] => simp
  | x :: y :: l =>
      rw [hq] at hnd
      have hlast : (y :: l).getLast (by simp) ∈ y :: l := List.getLast_mem _
      have hne : x ≠ (y :: l).getLast (by simp) := fun hx =>
        (List.nodup_cons.mp hnd).1 (hx ▸ hlast)
      have hmap : (Node.elem y :: l.map Node.elem).getLast (by simp) =
          (Node.elem ((y :: l).getLast (by simp)) : Node ι τ) :=
        List.getLast_map (f := Node.elem) (l := y :: l) (by simp)
      simpa [hmap] using hne

/-- The node of an element of a list does not point to itself. -/
theorem listEmpty_elem_of_mem [DecidableEq ι] [DecidableEq τ] (h : Rings m q) (hx : x ∈ q i) :
    m.listEmpty (.elem x) = false := by
  obtain ⟨l₁, l₂, hq⟩ := List.append_of_mem hx
  have hr := h.ring i
  rw [hq, List.map_append, List.map_cons] at hr
  rw [Links.listEmpty, beq_eq_false_iff_ne, hr.neighbours.2]
  have hnd := h.nodup i
  rw [hq] at hnd
  cases l₂ with
  | nil => simp
  | cons y l₂ =>
      have hne : y ≠ x := by
        rintro rfl
        exact (List.nodup_cons.mp (List.nodup_append.mp hnd).2.1).1 (by simp)
      simpa using hne

/-- Lists whose nodes keep their links keep their elements. -/
theorem congr_at (h : Rings m q) (hn : ∀ y, m'.next (.head y) = m.next (.head y))
    (hp : ∀ y, m'.prev (.head y) = m.prev (.head y))
    (hen : ∀ i, ∀ y ∈ q i, m'.next (.elem y) = m.next (.elem y))
    (hep : ∀ i, ∀ y ∈ q i, m'.prev (.elem y) = m.prev (.elem y)) : Rings m' q where
  ring i := by
    refine (h.ring i).congr (fun z hz => ?_) fun z hz => ?_
    · rcases List.mem_cons.mp hz with rfl | hz
      · exact hn i
      · obtain ⟨y, hy, rfl⟩ := List.mem_map.mp hz
        exact hen i y hy
    · rcases List.mem_cons.mp hz with rfl | hz
      · exact hp i
      · obtain ⟨y, hy, rfl⟩ := List.mem_map.mp hz
        exact hep i y hy
  disjoint := h.disjoint

/-- The node of an element of another list is not a node of this one. -/
theorem not_mem_ring (h : Rings m q) (hij : j ≠ i) {z : Node ι τ}
    (hz : z ∈ Node.head i :: (q i).map .elem) : z ∉ Node.head j :: (q j).map .elem := by
  intro hz'
  rcases List.mem_cons.mp hz with rfl | hz
  · rcases List.mem_cons.mp hz' with hz' | hz'
    · exact hij (Node.head.inj hz').symm
    · simp at hz'
  · obtain ⟨y, hy, rfl⟩ := List.mem_map.mp hz
    rcases List.mem_cons.mp hz' with hz' | hz'
    · simp at hz'
    · obtain ⟨y', hy', heq⟩ := List.mem_map.mp hz'
      obtain rfl := Node.elem.inj heq
      exact hij (h.disjoint hy' hy)

variable [DecidableEq ι] [DecidableEq τ]

/-- Initialising heads one after the other leaves each of them, and every head that was
initialised before, with an empty list. -/
theorem initHeads (L : List ι) {i : ι} (h : i ∈ L ∨ Ring m (.head i) []) :
    Ring (L.foldl (fun m j => m.initListHead (.head j)) m) (.head i) [] := by
  induction L generalizing m with
  | nil => exact h.resolve_left (by simp)
  | cons j L ih =>
      refine ih ?_
      by_cases hj : i = j
      · subst hj
        exact .inr (ring_nil.mpr (by simp [Links.initListHead]))
      · refine h.imp (fun hm => (List.mem_cons.mp hm).resolve_left hj) fun hr =>
          ring_nil.mpr ?_
        simpa [Links.initListHead, hj] using ring_nil.mp hr

/-- A family of lists whose heads were all initialised is empty. -/
theorem init {L : List ι} (h : ∀ i, i ∈ L) :
    Rings (L.foldl (fun m j => m.initListHead (.head j)) m) fun _ => ([] : List τ) where
  ring i := initHeads L (.inl (h i))
  disjoint := by simp

/-- `INIT_LIST_HEAD` on an element that is on no list. -/
theorem initElem (h : Rings m q) (hx : ∀ i, x ∉ q i) : Rings (m.initListHead (.elem x)) q := by
  have hne {i : ι} {y : τ} (hy : y ∈ q i) : y ≠ x := fun hyx => hx i (hyx ▸ hy)
  refine h.congr_at ?_ ?_ ?_ ?_
  · simp [Links.initListHead]
  · simp [Links.initListHead]
  · intro i y hy
    simp [Links.initListHead, hne hy]
  · intro i y hy
    simp [Links.initListHead, hne hy]

/-- `list_add_tail` of an element that is on no list. -/
theorem addTail (h : Rings m q) (hx : ∀ i, x ∉ q i) (i : ι) :
    Rings (m.listAddTail (.elem x) (.head i)) (Function.update q i (q i ++ [x])) where
  ring j := by
    by_cases hj : j = i
    · subst hj
      rw [Function.update_self, List.map_append]
      refine (h.ring j).addTail ?_
      simpa using hx j
    · rw [Function.update_of_ne hj]
      -- the neighbours that are relinked are nodes of the list of `i`
      have hlast : m.prev (.head i) ∈ Node.head i :: (q i).map .elem := by
        rw [(h.ring i).prev_head]
        exact List.getLast_mem _
      have hne (z : Node ι τ) (hz : z ∈ Node.head j :: (q j).map .elem) :
          z ≠ m.prev (.head i) ∧ z ≠ .elem x ∧ z ≠ .head i := by
        refine ⟨?_, ?_, ?_⟩
        · rintro rfl
          exact h.not_mem_ring hj hlast hz
        · rintro rfl
          exact hx j (by simpa using hz)
        · rintro rfl
          exact h.not_mem_ring hj (List.mem_cons_self ..) hz
      refine (h.ring j).congr (fun z hz => ?_) fun z hz => ?_
      · simp [Links.listAddTail, Links.listAdd, (hne z hz).1, (hne z hz).2.1]
      · simp [Links.listAddTail, Links.listAdd, (hne z hz).2.1, (hne z hz).2.2]
  disjoint {j k y} hj hk := by
    have hold (j : ι) (hj : y ∈ Function.update q i (q i ++ [x]) j) : y ∈ q j ∨ y = x ∧
      j = i := by
      by_cases hji : j = i
      · subst hji
        rw [Function.update_self, List.mem_append, List.mem_singleton] at hj
        exact hj.imp_right fun h => ⟨h, rfl⟩
      · rw [Function.update_of_ne hji] at hj
        exact .inl hj
    rcases hold j hj with hj' | ⟨rfl, rfl⟩
    · rcases hold k hk with hk' | ⟨rfl, -⟩
      · exact h.disjoint hj' hk'
      · exact absurd hj' (hx j)
    · rcases hold k hk with hk' | ⟨-, rfl⟩
      · exact absurd hk' (hx k)
      · rfl

/-- `list_del` of an element of a list. -/
theorem del (h : Rings m q) (hx : x ∈ q i) :
    Rings (m.listDel (.elem x)) (Function.update q i ((q i).erase x)) where
  ring j := by
    obtain ⟨l₁, l₂, hq⟩ := List.append_of_mem hx
    have hr := h.ring i
    rw [hq, List.map_append, List.map_cons] at hr
    by_cases hj : j = i
    · subst hj
      have hnot : x ∉ l₁ := by
        have hnd := h.nodup j
        rw [hq] at hnd
        exact fun hx₁ => (List.nodup_append.mp hnd).2.2 x hx₁ x (by simp) rfl
      rw [Function.update_self, hq, List.erase_append_right _ hnot, List.erase_cons_head,
        List.map_append]
      exact hr.del
    · rw [Function.update_of_ne hj]
      obtain ⟨hprev, hnext⟩ := hr.neighbours
      have hmem : Node.head i :: (q i).map .elem =
          Node.head i :: (l₁.map .elem ++ .elem x :: l₂.map .elem) := by simp [hq]
      have hp : m.prev (.elem x) ∈ Node.head i :: (q i).map .elem := by
        have hlast : m.prev (.elem x) ∈ Node.head i :: l₁.map .elem :=
          hprev ▸ List.getLast_mem _
        rw [hmem, ← List.cons_append]
        exact List.mem_append_left _ hlast
      have hn : m.next (.elem x) ∈ Node.head i :: (q i).map .elem := by
        have hfirst : m.next (.elem x) ∈ l₂.map .elem ++ [Node.head i] :=
          hnext ▸ List.head_mem _
        rw [hmem]
        rcases List.mem_append.mp hfirst with hm | hm
        · simp [hm]
        · exact List.mem_singleton.mp hm ▸ List.mem_cons_self ..
      refine (h.ring j).congr (fun z hz => ?_) fun z hz => ?_
      · have hne : z ≠ m.prev (.elem x) := fun hz' => h.not_mem_ring hj hp (hz' ▸ hz)
        simp [Links.listDel, hne]
      · have hne : z ≠ m.next (.elem x) := fun hz' => h.not_mem_ring hj hn (hz' ▸ hz)
        simp [Links.listDel, hne]
  disjoint {j k y} hj hk := by
    have hold (j : ι) (hj : y ∈ Function.update q i ((q i).erase x) j) : y ∈ q j := by
      by_cases hji : j = i
      · subst hji
        rw [Function.update_self] at hj
        exact List.mem_of_mem_erase hj
      · rwa [Function.update_of_ne hji] at hj
    exact h.disjoint (hold j hj) (hold k hk)

/-- An element is on no list after it was taken off its own. -/
theorem not_mem_erase (h : Rings m q) (hx : x ∈ q i) (j : ι) :
    x ∉ Function.update q i ((q i).erase x) j := by
  by_cases hj : j = i
  · subst hj
    rw [Function.update_self]
    exact (h.nodup j).not_mem_erase
  · rw [Function.update_of_ne hj]
    exact fun hx' => hj (h.disjoint hx' hx)

/-- `list_del_init` of an element of a list. -/
theorem delInit (h : Rings m q) (hx : x ∈ q i) :
    Rings (m.listDelInit (.elem x)) (Function.update q i ((q i).erase x)) :=
  (h.del hx).initElem (h.not_mem_erase hx)

/-- `list_del` and `list_add_tail` move an element to the end of its list. -/
theorem moveTail (h : Rings m q) (hx : x ∈ q i) :
    Rings ((m.listDel (.elem x)).listAddTail (.elem x) (.head i))
      (Function.update q i ((q i).erase x ++ [x])) := by
  have hadd := (h.del hx).addTail (h.not_mem_erase hx) i
  rwa [Function.update_self, Function.update_idem] at hadd

omit [DecidableEq ι] in
/-- Moving the last element to the end of its list changes nothing. -/
theorem moveTail_last (h : Rings m q) (hx : m.prev (.head i) = .elem x) :
    (q i).erase x ++ [x] = q i := by
  have hlast := h.prev_head_eq_elem.mp hx
  obtain ⟨l, y, hq⟩ := (List.eq_nil_or_concat' (q i)).resolve_left (by
    intro hnil
    simp [hnil] at hlast)
  rw [hq, List.getLast?_concat] at hlast
  obtain rfl := Option.some.inj hlast
  have hnd := h.nodup i
  rw [hq] at hnd
  have hnot : y ∉ l := fun hy => (List.nodup_append.mp hnd).2.2 y hy y (by simp) rfl
  rw [hq, List.erase_append_right _ hnot]
  simp

omit [DecidableEq τ] in
/-- The elements after one was added. -/
theorem mem_update_append :
    x ∈ Function.update q i (q i ++ [y]) j ↔ x ∈ q j ∨ x = y ∧ j = i := by
  by_cases hj : j = i
  · subst hj
    simp
  · simp [hj]

/-- The elements after one was taken away. -/
theorem mem_update_erase (h : Rings m q) (hy : y ∈ q i) :
    x ∈ Function.update q i ((q i).erase y) j ↔ x ∈ q j ∧ x ≠ y := by
  by_cases hj : j = i
  · subst hj
    rw [Function.update_self, (h.nodup j).mem_erase_iff, and_comm]
  · rw [Function.update_of_ne hj]
    refine ⟨fun hx => ⟨hx, ?_⟩, fun hx => hx.1⟩
    rintro rfl
    exact hj (h.disjoint hx hy)

/-- Moving an element to the end of its list keeps the elements. -/
theorem mem_moveTail (h : Rings m q) (hy : y ∈ q i) :
    x ∈ Function.update q i ((q i).erase y ++ [y]) j ↔ x ∈ q j := by
  by_cases hj : j = i
  · subst hj
    rw [Function.update_self, List.mem_append, (h.nodup j).mem_erase_iff, List.mem_singleton]
    by_cases hx : x = y
    · simp [hx, hy]
    · simp [hx]
  · rw [Function.update_of_ne hj]

/-- `list_add_tail` leaves the node of another element that is on no list alone. -/
theorem addTail_next (h : Rings m q) (hx : ∀ j, x ∉ q j) (hxy : x ≠ y) :
    (m.listAddTail (.elem y) (.head i)).next (.elem x) = m.next (.elem x) := by
  have hlast : Node.elem x ≠ m.prev (.head i) := fun heq =>
    hx i (List.mem_of_getLast? (h.prev_head_eq_elem.mp heq.symm))
  simp [Links.listAddTail, Links.listAdd, hxy, hlast]

/-- `list_del` leaves the node of another element that is on no list alone. -/
theorem del_next (h : Rings m q) (hx : ∀ j, x ∉ q j) (hy : y ∈ q i) :
    (m.listDel (.elem y)).next (.elem x) = m.next (.elem x) := by
  obtain ⟨l₁, l₂, hq⟩ := List.append_of_mem hy
  have hr := h.ring i
  rw [hq, List.map_append, List.map_cons] at hr
  have hne : Node.elem x ≠ m.prev (.elem y) := by
    rw [hr.neighbours.1]
    intro heq
    have hm : Node.elem x ∈ Node.head i :: l₁.map .elem := heq ▸ List.getLast_mem _
    have hm' : x ∈ l₁ := by simpa using hm
    exact hx i (hq ▸ List.mem_append_left _ hm')
  simp [Links.listDel, hne]

end Rings

/-! ### The order of two elements -/

section Order

variable {m : Links (Node ι τ)} {q : ι → List τ} {a b p : τ} {i : ι}

/-- Wherever `a` and `b` are in one list, `a` comes first. -/
def Ordered (a b : τ) (q : ι → List τ) : Prop :=
  ∀ i, a ∈ q i → b ∈ q i → [a, b].Sublist (q i)

/-- An element that was appended last is ahead of no other one. -/
theorem not_sublist_append {l : List τ} (ha : a ∉ l) : ¬[a, b].Sublist (l ++ [a]) := by
  intro h
  obtain ⟨l₁, l₂, heq, h₁, h₂⟩ := List.sublist_append_iff.mp h
  cases l₁ with
  | nil =>
      rw [List.nil_append] at heq
      have := h₂.length_le
      rw [← heq] at this
      simp at this
  | cons x l₁ =>
      obtain rfl : a = x := (List.cons.inj heq).1
      exact ha (h₁.subset (List.mem_cons_self ..))

variable [DecidableEq ι]

/-- Appending an element other than `a`. -/
theorem Ordered.append (h : Ordered a b q) (hp : p ≠ a) (hpq : ∀ i, p ∉ q i) :
    Ordered a b (Function.update q i (q i ++ [p])) := by
  intro j ha hb
  rw [Rings.mem_update_append] at ha hb
  have ha' : a ∈ q j := ha.resolve_right fun hap => hp hap.1.symm
  by_cases hj : j = i
  · subst hj
    rw [Function.update_self]
    by_cases hbp : b = p
    · subst hbp
      exact (List.singleton_sublist.mpr ha').append (.refl [b])
    · have hb' : b ∈ q j := hb.resolve_right fun h => hbp h.1
      exact (h j ha' hb').trans (List.sublist_append_left ..)
  · rw [Function.update_of_ne hj]
    exact h j ha' (hb.resolve_right fun h => hj h.2)

/-- Appending `a` to a list without `b`. -/
theorem Ordered.append_self (hb : b ∉ q i) (hab : b ≠ a) (ha : ∀ j, a ∉ q j) :
    Ordered a b (Function.update q i (q i ++ [a])) := by
  intro j ha' hb'
  rw [Rings.mem_update_append] at ha' hb'
  obtain ⟨-, rfl⟩ := ha'.resolve_left (ha j)
  exact absurd (hb'.resolve_right fun h => hab h.1) hb

variable [DecidableEq τ]

/-- Taking away an element. -/
theorem Ordered.erase (h : Ordered a b q)
    (hr : Rings m q) (hp : p ∈ q i) : Ordered a b (Function.update q i ((q i).erase p)) := by
  intro j ha hb
  obtain ⟨ha', hap⟩ := (hr.mem_update_erase hp).mp ha
  obtain ⟨hb', hbp⟩ := (hr.mem_update_erase hp).mp hb
  by_cases hj : j = i
  · subst hj
    rw [Function.update_self]
    have hsub := (h j ha' hb').erase p
    rwa [List.erase_cons_tail (by simpa using hap), List.erase_cons_tail (by simpa using hbp),
      List.erase_nil] at hsub
  · rw [Function.update_of_ne hj]
    exact h j ha' hb'

/-- Moving an element other than `a` to the end of its list. -/
theorem Ordered.move (h : Ordered a b q)
    (hr : Rings m q) (hp : p ∈ q i) (hpa : p ≠ a) :
    Ordered a b (Function.update q i ((q i).erase p ++ [p])) := by
  have hmove := (h.erase hr hp).append (i := i) hpa (hr.not_mem_erase hp)
  rwa [Function.update_self, Function.update_idem] at hmove

end Order

/-! ### The number of elements -/

section Total

variable [Fintype ι] {q : ι → List τ} {i : ι} {l : List τ}

/-- The number of elements on all lists. -/
def total (q : ι → List τ) : Nat := ∑ i, (q i).length

/-- There are no elements if every list is empty. -/
theorem total_eq_zero : total q = 0 ↔ ∀ i, q i = [] := by
  simp [total]

variable [DecidableEq ι]

/-- Replacing one list. -/
theorem total_update : total (Function.update q i l) + (q i).length = total q + l.length := by
  have hsum : ∑ j ∈ Finset.univ.erase i, (Function.update q i l j).length =
      ∑ j ∈ Finset.univ.erase i, (q j).length :=
    Finset.sum_congr rfl fun j hj => by rw [Function.update_of_ne (Finset.ne_of_mem_erase hj)]
  have hnew := Finset.add_sum_erase Finset.univ (fun j => (Function.update q i l j).length)
    (Finset.mem_univ i)
  have hold := Finset.add_sum_erase Finset.univ (fun j => (q j).length) (Finset.mem_univ i)
  rw [Function.update_self] at hnew
  simp only [total]
  omega

/-- Adding an element. -/
theorem total_append (x : τ) : total (Function.update q i (q i ++ [x])) = total q + 1 := by
  have := total_update (q := q) (i := i) (l := q i ++ [x])
  rw [List.length_append, List.length_singleton] at this
  omega

/-- Taking an element away. -/
theorem total_erase [DecidableEq τ] {x : τ} (hx : x ∈ q i) :
    total (Function.update q i ((q i).erase x)) + 1 = total q := by
  have := total_update (q := q) (i := i) (l := (q i).erase x)
  have hpos := List.length_pos_of_mem hx
  rw [List.length_erase_of_mem hx] at this
  omega

end Total

end ListHead
