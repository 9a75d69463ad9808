import Mathlib.Data.List.Nodup
import Mathlib.Logic.Function.Basic
import Mathlib.Tactic.Common

/-!
# Singly Linked Queues in a Heap

A queue with a pointer to its first and to its last cell, over a heap of cells that each
hold a value and a nullable link. The operations are the two every such queue has,
linking a cell at the tail and unlinking the head; both follow their pointers through the
heap and fail on a null or dangling one. `IsQueue` relates the pointers and the heap to
the list of the cells' addresses and values. Nothing here refers to a particular program.

## Main results

* `IsQueue.push`: linking a fresh cell at the tail succeeds and appends to the list.
* `IsQueue.pop`: unlinking the head succeeds and drops it from the list.
* `IsQueue.setHead`: changing the value in the head cell changes the head of the list.
-/

namespace PtrQueue

variable {α : Type}

/-- A heap cell: a value and a nullable link. -/
structure Cell (α : Type) where
  next : Option Nat
  val : α

/-- Heaps: partial maps from addresses to cells. -/
abbrev Heap (α : Type) : Type := Nat → Option (Cell α)

/-- The cells reachable from `p` are exactly those of the list, in order, and the last
one has a null link. -/
def Chain (h : Heap α) : Option Nat → List (Nat × α) → Prop
  | p, [] => p = none
  | p, (a, v) :: l => p = some a ∧ ∃ nx, h a = some ⟨nx, v⟩ ∧ Chain h nx l

/-- The addresses of a list of cells. -/
abbrev addrs (l : List (Nat × α)) : List Nat := l.map Prod.fst

/-- `first` and `last` are the ends of the queue of cells `l`. -/
structure IsQueue (h : Heap α) (first last : Option Nat) (l : List (Nat × α)) : Prop where
  chain : Chain h first l
  last_eq : last = (addrs l).getLast?
  nodup : (addrs l).Nodup

/-- Link the cell `a` at the tail: clear its link, then `last->next = a` or `first = a`,
then `last = a`. Fails on a dangling or null pointer. -/
def push (h : Heap α) (first last : Option Nat) (a : Nat) :
    Option (Heap α × Option Nat × Option Nat) := do
  let c ← h a
  let h := Function.update h a (some { c with next := none })
  match first with
  | none => pure (h, some a, some a)
  | some f => do
      let z ← last
      let cz ← h z
      pure (Function.update h z (some { cz with next := some a }), some f, some a)

/-- Unlink and free the head cell: `first = first->next; if(first == 0) last = 0`. -/
def pop (h : Heap α) (first last : Option Nat) :
    Option (Heap α × Option Nat × Option Nat) := do
  let a ← first
  let c ← h a
  pure (Function.update h a none, c.next, if c.next = none then none else last)

/-! ### Chains -/

/-- A chain only depends on the cells it goes through. -/
theorem Chain.congr {h h' : Heap α} {l : List (Nat × α)} {p : Option Nat}
    (hc : Chain h p l) (heq : ∀ a ∈ addrs l, h' a = h a) : Chain h' p l := by
  induction l generalizing p with
  | nil => exact hc
  | cons c l ih =>
      obtain ⟨a, v⟩ := c
      obtain ⟨hp, nx, ha, hl⟩ := hc
      refine ⟨hp, nx, ?_, ih hl fun b hb => heq b ?_⟩
      · rw [heq a (by simp), ha]
      · exact List.mem_cons_of_mem _ hb

/-- The first pointer of a chain is null exactly for the empty chain. -/
theorem Chain.eq_none_iff {h : Heap α} {l : List (Nat × α)} {p : Option Nat}
    (hc : Chain h p l) : p = none ↔ l = [] := by
  cases l with
  | nil => exact ⟨fun _ => rfl, fun _ => hc⟩
  | cons c l =>
      obtain ⟨hp, -⟩ := hc
      simp [hp]

/-- Every cell of a chain is in the heap. -/
theorem Chain.mem_heap {h : Heap α} {l : List (Nat × α)} {p : Option Nat} {a : Nat}
    (hc : Chain h p l) (ha : a ∈ addrs l) : (h a).isSome := by
  induction l generalizing p with
  | nil => simp at ha
  | cons c l ih =>
      obtain ⟨b, v⟩ := c
      obtain ⟨-, nx, hb, hl⟩ := hc
      rcases List.mem_cons.mp ha with rfl | ha
      · exact Option.isSome_of_eq_some hb
      · exact ih hl ha

/-- Relinking the last cell of a chain to a fresh last cell extends the chain by it. -/
theorem Chain.snoc {h : Heap α} {l : List (Nat × α)} {p : Option Nat} {a z : Nat} {v : α}
    {cz : Cell α} (hc : Chain h p l) (hnd : (addrs l).Nodup) (ha : a ∉ addrs l)
    (hz : (addrs l).getLast? = some z) (hcz : h z = some cz) (hv : h a = some ⟨none, v⟩) :
    Chain (Function.update h z (some { cz with next := some a })) p (l ++ [(a, v)]) := by
  induction l generalizing p with
  | nil => simp at hz
  | cons c l ih =>
      obtain ⟨b, w⟩ := c
      obtain ⟨hp, nx, hb, hl⟩ := hc
      simp only [List.map_cons, List.nodup_cons, List.mem_cons, not_or] at hnd ha
      cases l with
      | nil =>
          -- the last cell is this one: its link now leads to the new cell
          obtain rfl : b = z := by simpa using hz
          obtain rfl : cz = ⟨nx, w⟩ := Option.some.inj (hcz.symm.trans hb)
          refine ⟨hp, some a, by simp, rfl, none, ?_, rfl⟩
          rw [Function.update_of_ne ha.1, hv]
      | cons d l =>
          have hz' : (addrs (d :: l)).getLast? = some z := by
            simpa [List.getLast?_cons] using hz
          have hbz : b ≠ z := by
            intro h
            exact hnd.1 (h ▸ List.mem_of_getLast? hz')
          exact ⟨hp, nx, by rw [Function.update_of_ne hbz, hb], ih hl hnd.2 ha.2 hz'⟩

/-! ### Queues -/

/-- The empty queue. -/
theorem IsQueue.nil (h : Heap α) : IsQueue h none none ([] : List (Nat × α)) :=
  ⟨rfl, rfl, List.nodup_nil⟩

theorem IsQueue.first_eq_none_iff {h : Heap α} {first last : Option Nat}
    {l : List (Nat × α)} (hq : IsQueue h first last l) : first = none ↔ l = [] :=
  hq.chain.eq_none_iff

/-- A queue only depends on its own cells. -/
theorem IsQueue.congr {h h' : Heap α} {first last : Option Nat} {l : List (Nat × α)}
    (hq : IsQueue h first last l) (heq : ∀ a ∈ addrs l, h' a = h a) :
    IsQueue h' first last l :=
  ⟨hq.chain.congr heq, hq.last_eq, hq.nodup⟩

/-- **Linking at the tail appends.** A cell of the heap that is not in the queue can be
linked; only it and the old last cell change. -/
theorem IsQueue.push {h : Heap α} {first last : Option Nat} {l : List (Nat × α)} {a : Nat}
    {c : Cell α} (hq : IsQueue h first last l) (hc : h a = some c) (ha : a ∉ addrs l) :
    ∃ h' first', PtrQueue.push h first last a = some (h', first', some a) ∧
      IsQueue h' first' (some a) (l ++ [(a, c.val)]) ∧
      ∀ b, b ≠ a → b ∉ addrs l → h' b = h b := by
  have hnd : (addrs (l ++ [(a, c.val)])).Nodup := by
    have happ : addrs (l ++ [(a, c.val)]) = addrs l ++ [a] := by simp
    rw [happ]
    exact List.Nodup.append hq.nodup (List.nodup_singleton a) (by simpa using ha)
  set h₁ := Function.update h a (some { c with next := none }) with hh₁
  have hframe : ∀ b ∈ addrs l, h₁ b = h b := fun b hb =>
    Function.update_of_ne (fun hba => ha (by rwa [← hba])) _ _
  have hc₁ : Chain h₁ first l := hq.chain.congr hframe
  cases first with
  | none =>
      have hl : l = [] := hq.first_eq_none_iff.mp rfl
      subst hl
      refine ⟨h₁, some a, by simp [PtrQueue.push, hc, hh₁], ⟨⟨rfl, none, by simp [hh₁], rfl⟩,
        by simp, hnd⟩, fun b hb _ => ?_⟩
      rw [hh₁, Function.update_of_ne hb]
  | some f =>
      have hne : l ≠ [] := fun h => by simpa using hq.first_eq_none_iff.mpr h
      obtain ⟨z, hz⟩ : ∃ z, (addrs l).getLast? = some z := by
        rcases hg : (addrs l).getLast? with _ | z
        · simp [hne] at hg
        · exact ⟨z, rfl⟩
      have hzl : z ∈ addrs l := List.mem_of_getLast? hz
      obtain ⟨cz, hcz⟩ := Option.isSome_iff_exists.mp (hc₁.mem_heap hzl)
      refine ⟨Function.update h₁ z (some { cz with next := some a }), some f, ?_,
        ⟨hc₁.snoc hq.nodup ha hz hcz (by simp [hh₁]), by simp, hnd⟩, fun b hb hbl => ?_⟩
      · simp only [PtrQueue.push, hc, hq.last_eq, hz, ← hh₁, hcz, Option.bind_eq_bind,
          Option.bind_some, pure]
      · rw [Function.update_of_ne (fun hbz => hbl (by rwa [hbz])), hh₁,
          Function.update_of_ne hb]

/-- **Unlinking the head** drops it from the list and frees only its cell. -/
theorem IsQueue.pop {h : Heap α} {first last : Option Nat} {l : List (Nat × α)} {a : Nat}
    {v : α} (hq : IsQueue h first last ((a, v) :: l)) :
    ∃ first' last',
    PtrQueue.pop h first last = some (Function.update h a none, first', last') ∧
      IsQueue (Function.update h a none) first' last' l := by
  obtain ⟨rfl, nx, ha, hl⟩ := hq.chain
  have hnd := List.nodup_cons.mp hq.nodup
  have hl' : Chain (Function.update h a none) nx l :=
    hl.congr fun b hb => Function.update_of_ne (fun hba => hnd.1 (by rwa [← hba])) _ _
  refine ⟨nx, if nx = none then none else last, by simp [PtrQueue.pop, ha], hl', ?_, hnd.2⟩
  cases l with
  | nil =>
      have hnx : nx = none := hl
      simp [hnx]
  | cons d l =>
      have hnx : nx ≠ none := fun h => by simpa [h] using hl.eq_none_iff.mp h
      simp [hnx, hq.last_eq, List.getLast?_cons]

/-- Changing the value of the head cell in place. -/
theorem IsQueue.setHead {h : Heap α} {first last : Option Nat} {l : List (Nat × α)} {a : Nat}
    {v : α} (w : α) (hq : IsQueue h first last ((a, v) :: l)) :
    ∃ nx, h a = some ⟨nx, v⟩ ∧
      IsQueue (Function.update h a (some ⟨nx, w⟩)) first last ((a, w) :: l) := by
  obtain ⟨rfl, nx, ha, hl⟩ := hq.chain
  have hnd := List.nodup_cons.mp hq.nodup
  refine ⟨nx, ha, ⟨⟨rfl, nx, by simp, hl.congr fun b hb => ?_⟩, hq.last_eq, hq.nodup⟩⟩
  exact Function.update_of_ne (fun hba => hnd.1 (by rwa [← hba])) _ _

end PtrQueue
