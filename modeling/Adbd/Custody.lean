import Mathlib.Logic.Function.Basic
import Mathlib.Data.List.Perm.Basic
import Mathlib.Data.List.Nodup
import Mathlib.Tactic.Common

/-!
# Custody of Allocated Objects

An allocator hands out numbered objects, and holders of an arbitrary type `ι` keep lists
of them. This module says when the books are in order: every object a holder has is
live and has no other holder, and when nothing is lost: every live object has a holder.
The elementary transactions are allocating an object to a holder, handing one over, and
freeing some. Nothing here refers to a particular program.

## Main definitions

* `Ledger`: who holds what, what is live, and the next number.
* `Ledger.WF`: every object held is live and held once.
* `Ledger.Tight`: every live object is held.
* `Conserves L L'`: going from `L` to `L'` keeps both.

## Main results

* `conserves_alloc`, `conserves_move`, `conserves_free`: the elementary transactions.
* `Ledger.WF.forget`: forgetting an object keeps the books in order, though not tight.
-/

namespace Custody

variable {ι : Type}

/-- Who holds what, which objects are live, and the next number to hand out. -/
@[ext] structure Ledger (ι : Type) where
  held : ι → List Nat
  live : Nat → Bool
  next : Nat

/-- Every object held is live and held exactly once, and no number is reused. -/
structure Ledger.WF (L : Ledger ι) : Prop where
  nodup : ∀ o, (L.held o).Nodup
  live : ∀ {o x}, x ∈ L.held o → L.live x = true
  unique : ∀ {o o' x}, x ∈ L.held o → x ∈ L.held o' → o = o'
  fresh : ∀ {x}, L.live x = true → x < L.next

/-- Every live object is held. -/
def Ledger.Tight (L : Ledger ι) : Prop := ∀ x, L.live x = true → ∃ o, x ∈ L.held o

/-- From `L` to `L'` the books stay in order and nothing is lost. -/
structure Conserves (L L' : Ledger ι) : Prop where
  wf : L.WF → L'.WF
  tight : L.WF → L.Tight → L'.Tight

theorem Conserves.refl (L : Ledger ι) : Conserves L L := ⟨id, fun _ h => h⟩

theorem Conserves.of_eq {L L' : Ledger ι} (h : L' = L) : Conserves L L' := h ▸ .refl L

theorem Conserves.trans {L L' L'' : Ledger ι} (h : Conserves L L') (h' : Conserves L' L'') :
    Conserves L L'' :=
  ⟨fun hw => h'.wf (h.wf hw), fun hw ht => h'.tight (h.wf hw) (h.tight hw ht)⟩

/-- Nothing that is held has the next number. -/
theorem Ledger.WF.next_not_mem {L : Ledger ι} (h : L.WF) (o : ι) : L.next ∉ L.held o :=
  fun hm => Nat.lt_irrefl _ (h.fresh (h.live hm))

variable [DecidableEq ι] {L : Ledger ι} {o o' : ι} {x : Nat} {l l' : List Nat}

/-! ### Allocating -/

/-- The next object is allocated to `o`, whose list becomes `l`. -/
def Ledger.alloc (L : Ledger ι) (o : ι) (l : List Nat) : Ledger ι where
  held := Function.update L.held o l
  live := Function.update L.live L.next true
  next := L.next + 1

theorem conserves_alloc (hl : l.Perm (L.next :: L.held o)) : Conserves L (L.alloc o l) := by
  have hmem (p : ι) (y : Nat) :
      y ∈ (L.alloc o l).held p ↔ (p = o ∧ y = L.next) ∨ y ∈ L.held p := by
    by_cases hp : p = o
    · subst hp
      simp [Ledger.alloc, hl.mem_iff]
    · simp [Ledger.alloc, hp]
  refine ⟨fun h => ⟨fun p => ?_, fun {p y} hy => ?_, fun {p p' y} hy hy' => ?_,
    fun {y} hy => ?_⟩, fun h ht y hy => ?_⟩
  · by_cases hp : p = o
    · subst hp
      simp only [Ledger.alloc, Function.update_self]
      exact hl.nodup_iff.mpr (List.nodup_cons.mpr ⟨h.next_not_mem p, h.nodup p⟩)
    · simpa [Ledger.alloc, hp] using h.nodup p
  · simp only [Ledger.alloc, Function.update_apply]
    split_ifs with hn
    · rfl
    · rcases (hmem p y).mp hy with ⟨-, rfl⟩ | hy
      · exact absurd rfl hn
      · exact h.live hy
  · rcases (hmem p y).mp hy with ⟨rfl, rfl⟩ | hy
    · rcases (hmem p' _).mp hy' with ⟨rfl, -⟩ | hy'
      · rfl
      · exact absurd hy' (h.next_not_mem p')
    · rcases (hmem p' y).mp hy' with ⟨-, rfl⟩ | hy'
      · exact absurd hy (h.next_not_mem p)
      · exact h.unique hy hy'
  · simp only [Ledger.alloc, Function.update_apply] at hy ⊢
    split_ifs at hy with hn
    · subst hn; exact Nat.lt_succ_self _
    · exact Nat.lt_succ_of_lt (h.fresh hy)
  · simp only [Ledger.alloc, Function.update_apply] at hy
    split_ifs at hy with hn
    · exact ⟨o, (hmem o y).mpr (.inl ⟨rfl, hn⟩)⟩
    · obtain ⟨p, hp⟩ := ht y hy
      exact ⟨p, (hmem p y).mpr (.inr hp)⟩

/-! ### Handing over -/

/-- An object goes from `o`, which keeps `l`, to `o'`, which then has `l'`. -/
def Ledger.move (L : Ledger ι) (o o' : ι) (l l' : List Nat) : Ledger ι :=
  { L with held := Function.update (Function.update L.held o l) o' l' }

theorem conserves_move (hne : o ≠ o') (hl : (x :: l).Perm (L.held o))
    (hl' : l'.Perm (x :: L.held o')) : Conserves L (L.move o o' l l') := by
  have hheld (p : ι) : (L.move o o' l l').held p =
      if p = o' then l' else if p = o then l else L.held p := by
    simp only [Ledger.move, Function.update_apply]
  have hx : x ∈ L.held o := hl.mem_iff.mp (List.mem_cons_self ..)
  -- what a holder has afterwards it had before, but for `x`
  have hmem {p : ι} {y : Nat} (hy : y ∈ (L.move o o' l l').held p) :
      (p = o' ∧ y = x) ∨ y ∈ L.held p := by
    rw [hheld] at hy
    split_ifs at hy with h1 h2
    · rw [hl'.mem_iff, List.mem_cons] at hy
      exact hy.imp (fun h => ⟨h1, h⟩) (fun h => h1 ▸ h)
    · exact .inr (h2 ▸ hl.mem_iff.mp (List.mem_cons_of_mem _ hy))
    · exact .inr hy
  refine ⟨fun h => ⟨fun p => ?_, fun {p y} hy => ?_, fun {p p' y} hy hy' => ?_, h.fresh⟩,
    fun h ht y hy => ?_⟩
  · rw [hheld]
    split_ifs with h1 h2
    · refine hl'.nodup_iff.mpr (List.nodup_cons.mpr ⟨fun hx' => hne (h.unique hx hx'), ?_⟩)
      exact h.nodup o'
    · exact (List.nodup_cons.mp (hl.nodup_iff.mpr (h.nodup o))).2
    · exact h.nodup p
  · rcases hmem hy with ⟨-, rfl⟩ | hy
    · exact h.live hx
    · exact h.live hy
  · -- `x` is no longer with `o`
    have hgone {p : ι} (hp : x ∈ (L.move o o' l l').held p) : p = o' := by
      rcases hmem hp with ⟨hp', -⟩ | hxp
      · exact hp'
      · obtain rfl : o = p := h.unique hx hxp
        rw [hheld, if_neg hne, if_pos rfl] at hp
        exact absurd hp (List.nodup_cons.mp (hl.nodup_iff.mpr (h.nodup o))).1
    rcases hmem hy with ⟨hp, rfl⟩ | hy₀
    · exact hp.trans (hgone hy').symm
    · rcases hmem hy' with ⟨hp', rfl⟩ | hy'₀
      · exact (hgone hy).trans hp'.symm
      · exact h.unique hy₀ hy'₀
  · obtain ⟨p, hp⟩ := ht y hy
    by_cases hyx : y = x
    · exact ⟨o', by rw [hheld, if_pos rfl]; exact hl'.mem_iff.mpr (by simp [hyx])⟩
    · refine ⟨p, ?_⟩
      rw [hheld]
      split_ifs with h1 h2
      · exact hl'.mem_iff.mpr (List.mem_cons_of_mem _ (h1 ▸ hp))
      · have hcons : y ∈ x :: l := hl.mem_iff.mpr (h2 ▸ hp)
        exact (List.mem_cons.mp hcons).resolve_left hyx
      · exact hp

/-! ### Freeing -/

/-- The objects `l'` are freed by `o`, which keeps `l`. -/
def Ledger.free (L : Ledger ι) (o : ι) (l' l : List Nat) : Ledger ι where
  held := Function.update L.held o l
  live := fun y => if y ∈ l' then false else L.live y
  next := L.next

theorem conserves_free (hl : (l' ++ l).Perm (L.held o)) : Conserves L (L.free o l' l) := by
  have hsub {p : ι} {y : Nat} (hy : y ∈ (L.free o l' l).held p) : y ∈ L.held p := by
    by_cases hp : p = o
    · subst hp
      simp only [Ledger.free, Function.update_self] at hy
      exact hl.mem_iff.mp (List.mem_append_right _ hy)
    · simpa [Ledger.free, hp] using hy
  refine ⟨fun h => ⟨fun p => ?_, fun {p y} hy => ?_, fun {p p' y} hy hy' => ?_,
    fun {y} hy => ?_⟩, fun h ht y hy => ?_⟩
  · by_cases hp : p = o
    · subst hp
      simp only [Ledger.free, Function.update_self]
      exact (List.nodup_append.mp (hl.nodup_iff.mpr (h.nodup p))).2.1
    · simpa [Ledger.free, hp] using h.nodup p
  · have hnot : y ∉ l' := by
      intro hy'
      obtain rfl : o = p :=
        h.unique (hl.mem_iff.mp (List.mem_append_left _ hy')) (hsub hy)
      simp only [Ledger.free, Function.update_self] at hy
      exact (List.nodup_append.mp (hl.nodup_iff.mpr (h.nodup o))).2.2 y hy' y hy rfl
    simp only [Ledger.free, hnot, if_false]
    exact h.live (hsub hy)
  · exact h.unique (hsub hy) (hsub hy')
  · simp only [Ledger.free] at hy ⊢
    split_ifs at hy
    exact h.fresh hy
  · simp only [Ledger.free] at hy
    split_ifs at hy with hnot
    obtain ⟨p, hp⟩ := ht y hy
    refine ⟨p, ?_⟩
    by_cases hpo : p = o
    · subst hpo
      simp only [Ledger.free, Function.update_self]
      exact (List.mem_append.mp (hl.mem_iff.mpr hp)).resolve_left hnot
    · simpa [Ledger.free, hpo] using hp

/-! ### Forgetting -/

/-- The books stay in order if a holder forgets some of what it has. -/
theorem Ledger.WF.forget (h : L.WF) (hl : l.Sublist (L.held o)) :
    ({ L with held := Function.update L.held o l } : Ledger ι).WF := by
  have hsub {p : ι} {y : Nat} (hy : y ∈ Function.update L.held o l p) : y ∈ L.held p := by
    by_cases hp : p = o
    · subst hp
      simp only [Function.update_self] at hy
      exact hl.subset hy
    · simpa [hp] using hy
  refine ⟨fun p => ?_, fun hy => h.live (hsub hy), fun hy hy' => h.unique (hsub hy) (hsub hy'),
    h.fresh⟩
  by_cases hp : p = o
  · subst hp
    simp only [Function.update_self]
    exact (h.nodup p).sublist hl
  · simpa [hp] using h.nodup p

end Custody
