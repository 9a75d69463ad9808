import Adbd.Runs

/-!
# The Descriptor Table

`fdevent_register` finds the records of the event loop by their descriptors in a table that it
enlarges with `realloc`. The memory of the table is modelled in units of `sizeof(int)`, as that
is the unit in which the new slots are counted for `memset`: a pointer is one of them or two.

Where pointers have eight bytes, half of the new slots keep what `realloc` added. And the table
takes descriptors up to 32000 and more, where the sets for `select` have `FD_SETSIZE` bits.

## Main definitions

* `FdeTable`, `FdeTable.slot`: the table and what is read from a slot.
* `growLoop`, `FdeTable.register`: `fdevent_register`.
* `Registry.Admits`: the descriptors that were accepted fit, and the other slots are null.
* `Registry.Fits`: the descriptor is below `FD_SETSIZE`, and zeros were added where they are
  not written.

## Main results

* `growLoop_ends`: the loop ends.
* `register_admits_iff`: the sequences of registrations for which the table is right.
-/

namespace Adbd

open Runs

/-- The number of bits of an `fd_set`. -/
def FD_SETSIZE : Nat := 1024

/-- The width of a pointer, in bytes. -/
inductive PtrWidth
  | four
  | eight
deriving DecidableEq, Repr

/-- `sizeof(fdevent*) / sizeof(int)`. -/
def PtrWidth.ints : PtrWidth → Nat
  | .four => 1
  | .eight => 2

/-- A pointer: the integers that it consists of. -/
abbrev Ptr (w : PtrWidth) := Fin w.ints → UInt32

/-- `fd_table_max` and the memory `fd_table` points to. -/
structure FdeTable where
  max : Nat := 0
  mem : Nat → UInt32 := fun _ => 0

/-- Where the process ends in `fdevent_register`: a descriptor is negative or too large, or
there is no memory for so many entries. The last is no end: the loop has not come to one. -/
inductive Refusal
  | negative (fd : Int)
  | huge (fd : Nat)
  | noMemory (max : Nat)
  | growing
deriving DecidableEq, Repr

namespace FdeTable

variable (w : PtrWidth)

/-- What is read from the slot of a descriptor. -/
def slot (t : FdeTable) (fd : Nat) : Ptr w := fun k => t.mem (w.ints * fd + k)

/-- Write a pointer into a slot. -/
def store (t : FdeTable) (fd : Nat) (fde : Ptr w) : FdeTable :=
  { t with mem := fun j =>
      if h : w.ints * fd ≤ j ∧ j - w.ints * fd < w.ints then fde ⟨j - w.ints * fd, h.2⟩
      else t.mem j }

end FdeTable

/-- `while(fd_table_max <= fde->fd)`, with at most `n` tests. -/
def growLoop (fd : Nat) : Nat → Nat → Option Nat
  | 0, _ => none
  | n + 1, max => if max ≤ fd then growLoop fd n (max * 2) else some max

/-- The size of the table that `growLoop` starts with. -/
def startMax (max : Nat) : Nat := if max = 0 then 256 else max

/-- `fdevent_register`. What `realloc` adds reads as `fresh`, unless it fails; `memset` clears
as many bytes as there are new slots, times `sizeof(int)`. -/
def FdeTable.register (w : PtrWidth) (t : FdeTable) (fd : Int) (fde : Ptr w)
    (fresh : Nat → UInt32) (room : Bool) : Except Refusal FdeTable :=
  if fd < 0 then .error (.negative fd)
  else if t.max ≤ fd.toNat then
    if 32000 < fd.toNat then .error (.huge fd.toNat)
    else
      match growLoop fd.toNat (fd.toNat + 1) (startMax t.max) with
      | none => .error .growing
      | some max =>
          if room then
            let grown : FdeTable :=
              { max
                mem := fun j =>
                  if j < w.ints * t.max then t.mem j
                  else if j < w.ints * t.max + (max - t.max) then 0
                  else fresh j }
            .ok (grown.store w fd.toNat fde)
          else .error (.noMemory max)
  else .ok (t.store w fd.toNat fde)

/-! ### The loop -/

/-- The loop ends above the descriptor, and not below where it started. -/
theorem growLoop_ends (fd n max : Nat) (h : fd < n + max) (hpos : 0 < max) :
    ∃ r, growLoop fd (n + 1) max = some r ∧ fd < r ∧ max ≤ r := by
  induction n generalizing max with
  | zero =>
      rw [growLoop, if_neg (by omega)]
      exact ⟨max, rfl, by omega, Nat.le_refl _⟩
  | succ n ih =>
      rw [growLoop]
      split
      · obtain ⟨r, hr, hfd, hle⟩ := ih (max * 2) (by omega) (by omega)
        exact ⟨r, hr, hfd, by omega⟩
      · exact ⟨max, rfl, by omega, Nat.le_refl _⟩

/-- The size of the table behind the registration of a descriptor. -/
def tableMax (fd max : Nat) : Nat :=
  if max ≤ fd then (growLoop fd (fd + 1) (startMax max)).getD max else max

theorem growLoop_startMax (fd max : Nat) :
    ∃ r, growLoop fd (fd + 1) (startMax max) = some r ∧ fd < r ∧ max ≤ r := by
  have hstart : 0 < startMax max ∧ max ≤ startMax max := by
    rw [startMax]
    split <;> omega
  obtain ⟨r, hr, hfd, hle⟩ := growLoop_ends fd fd _ (by omega) hstart.1
  exact ⟨r, hr, hfd, Nat.le_trans hstart.2 hle⟩

theorem lt_tableMax (fd max : Nat) : fd < tableMax fd max ∧ max ≤ tableMax fd max := by
  rw [tableMax]
  split
  · obtain ⟨r, hr, hfd, hle⟩ := growLoop_startMax fd max
    rw [hr]
    exact ⟨hfd, hle⟩
  · omega

/-! ### The memory -/

namespace FdeTable

variable {w : PtrWidth} {t t' : FdeTable} {fd : Int} {fde : Ptr w} {fresh : Nat → UInt32}
  {room : Bool} {i j n : Nat}

theorem ints_pos (w : PtrWidth) : 0 < w.ints := by cases w <;> decide

theorem store_mem_of_ne (h : j / w.ints ≠ n) : (t.store w n fde).mem j = t.mem j := by
  have hpos := ints_pos w
  rw [store]
  dsimp only
  rw [dif_neg]
  rintro ⟨hle, hlt⟩
  refine h (Nat.div_eq_of_lt_le ?_ ?_)
  · rw [Nat.mul_comm]
    exact hle
  · rw [Nat.add_mul, Nat.mul_comm, Nat.one_mul]
    omega

theorem store_slot_self (t : FdeTable) (n : Nat) (fde : Ptr w) :
    (t.store w n fde).slot w n = fde := by
  funext k
  rw [slot, store]
  dsimp only
  rw [dif_pos ⟨Nat.le_add_right _ _, by rw [Nat.add_sub_cancel_left]; exact k.isLt⟩]
  congr 1
  exact Fin.ext (Nat.add_sub_cancel_left _ _)

theorem slot_div (k : Fin w.ints) : (w.ints * i + k) / w.ints = i := by
  rw [Nat.mul_add_div (ints_pos w), Nat.div_eq_of_lt k.isLt, Nat.add_zero]

theorem store_slot_of_ne (h : i ≠ n) : (t.store w n fde).slot w i = t.slot w i := by
  funext k
  exact store_mem_of_ne (by rwa [slot_div])

/-- **What a registration does**: the slot of the descriptor has the record, those of the other
descriptors the table had are as they were, and in the new ones there are zeros as far as
`memset` goes, and what `realloc` added behind. -/
structure Registered (w : PtrWidth) (t : FdeTable) (fd : Nat) (fde : Ptr w)
    (fresh : Nat → UInt32) (t' : FdeTable) : Prop where
  max : t'.max = tableMax fd t.max
  slot : t'.slot w fd = fde
  old : ∀ i < t.max, i ≠ fd → t'.slot w i = t.slot w i
  new : ∀ i, t.max ≤ i → i < t'.max → i ≠ fd → ∀ k : Fin w.ints, t'.slot w i k =
    if w.ints * i + k < w.ints * t.max + (t'.max - t.max) then 0 else fresh (w.ints * i + k)

theorem register_spec (h : t.register w fd fde fresh room = .ok t') :
    Registered w t fd.toNat fde fresh t' := by
  rw [register] at h
  split at h
  · exact nomatch h
  · split at h
    · next hgrow =>
      split at h
      · exact nomatch h
      · obtain ⟨max, hmax, -⟩ := growLoop_startMax fd.toNat t.max
        rw [hmax] at h
        dsimp only at h
        split at h
        · obtain rfl := Except.ok.inj h
          refine ⟨?_, store_slot_self .., fun i hi hne => ?_, fun i hle hlt hne k => ?_⟩
          · rw [tableMax, if_pos hgrow, hmax]
            rfl
          · rw [store_slot_of_ne hne]
            funext k
            have hin : w.ints * i + k < w.ints * t.max := by
              have := Nat.mul_le_mul_left w.ints (Nat.succ_le_of_lt hi)
              rw [Nat.mul_succ] at this
              omega
            rw [slot, slot]
            dsimp only
            rw [if_pos hin]
          · rw [store_slot_of_ne hne]
            have hout : ¬w.ints * i + k < w.ints * t.max :=
              Nat.not_lt.mpr (Nat.le_trans (Nat.mul_le_mul_left _ hle) (Nat.le_add_right _ _))
            rw [slot]
            dsimp only
            rw [if_neg hout]
            rfl
        · exact nomatch h
    · next hfits =>
      obtain rfl := Except.ok.inj h
      have hmax : tableMax fd.toNat t.max = t.max := if_neg hfits
      exact ⟨hmax.symm, store_slot_self .., fun i _ hne => store_slot_of_ne hne,
        fun i hle hlt _ _ => absurd hlt (Nat.not_lt.mpr hle)⟩

theorem register_ne_growing : t.register w fd fde fresh room ≠ .error .growing := by
  obtain ⟨max, hmax, -⟩ := growLoop_startMax fd.toNat t.max
  rw [register]
  split
  · nofun
  · split
    · split
      · nofun
      · rw [hmax]
        dsimp only
        split <;> nofun
    · nofun

end FdeTable

/-! ### Sequences of registrations -/

/-- The table and the descriptors that were accepted. -/
structure Registry where
  table : FdeTable := {}
  accepted : List Nat := []

/-- A call of `fdevent_register`: a descriptor and its record, what memory `realloc` adds, and
whether it finds any. -/
structure Registration (w : PtrWidth) where
  fd : Int
  fde : Ptr w
  fresh : Nat → UInt32 := fun _ => 0
  room : Bool := true

namespace Registry

variable {w : PtrWidth}

/-- A registration, where the process goes on behind it. -/
def step (s : Registry) (a : Registration w) : Option Registry :=
  match s.table.register w a.fd a.fde a.fresh a.room with
  | .ok t => some { table := t, accepted := a.fd.toNat :: s.accepted }
  | .error _ => none

/-- **The table is right**: every descriptor that was accepted is in the table and in an
`fd_set`, the slots of all others are null, and no registration finds the loop without an
end. -/
structure Admits (w : PtrWidth) (s : Registry) : Prop where
  bounded : ∀ fd ∈ s.accepted, fd < s.table.max ∧ fd < FD_SETSIZE
  null : ∀ fd < s.table.max, fd ∉ s.accepted → s.table.slot w fd = fun _ => 0
  ends : ∀ a : Registration w, s.table.register w a.fd a.fde a.fresh a.room ≠ .error .growing

/-- The descriptor is in an `fd_set`, and where `memset` does not get to, `realloc` has added
zeros, but for the slot that is written. -/
def Fits (s : Registry) (a : Registration w) : Prop :=
  a.fd.toNat < FD_SETSIZE ∧
    ∀ j, w.ints * s.table.max + (tableMax a.fd.toNat s.table.max - s.table.max) ≤ j →
      j < w.ints * tableMax a.fd.toNat s.table.max → j / w.ints ≠ a.fd.toNat → a.fresh j = 0

/-- Where a pointer is as wide as an integer, all new slots are cleared. -/
theorem fits_four {s : Registry} {a : Registration .four} :
    Fits s a ↔ a.fd.toNat < FD_SETSIZE := by
  have hle := (lt_tableMax a.fd.toNat s.table.max).2
  refine ⟨fun h => h.1, fun h => ⟨h, fun j hj hlt => ?_⟩⟩
  simp only [PtrWidth.ints, Nat.one_mul] at hj hlt
  omega

theorem step_cases {s s' : Registry} {a : Registration w} (h : s.step a = some s') :
    FdeTable.Registered w s.table a.fd.toNat a.fde a.fresh s'.table ∧
      s'.accepted = a.fd.toNat :: s.accepted := by
  rw [step] at h
  split at h
  · next t ht =>
    obtain rfl := Option.some.inj h
    exact ⟨FdeTable.register_spec ht, rfl⟩
  · exact nomatch h

theorem admits_init : Admits w {} :=
  ⟨nofun, nofun, fun _ => FdeTable.register_ne_growing⟩

/-- A registration that fits. -/
theorem Admits.step {s s' : Registry} {a : Registration w} (hs : s.Admits w) (ha : Fits s a)
    (h : s.step a = some s') : s'.Admits w := by
  obtain ⟨hreg, haccepted⟩ := step_cases h
  obtain ⟨hlt, hle⟩ := lt_tableMax a.fd.toNat s.table.max
  rw [← hreg.max] at hlt hle
  refine ⟨fun fd hfd => ?_, fun fd hfd hnot => ?_, fun _ => FdeTable.register_ne_growing⟩
  · rw [haccepted] at hfd
    rcases List.mem_cons.mp hfd with rfl | hfd
    · exact ⟨hlt, ha.1⟩
    · exact ⟨Nat.lt_of_lt_of_le (hs.bounded fd hfd).1 hle, (hs.bounded fd hfd).2⟩
  · rw [haccepted, List.mem_cons, not_or] at hnot
    by_cases hold : fd < s.table.max
    · rw [hreg.old fd hold hnot.1]
      exact hs.null fd hold hnot.2
    · funext k
      rw [hreg.new fd (Nat.not_lt.mp hold) hfd hnot.1]
      split
      · rfl
      · next hclear =>
        refine ha.2 _ (by rw [← hreg.max]; exact Nat.not_lt.mp hclear) ?_ ?_
        · rw [← hreg.max]
          have := Nat.mul_le_mul_left w.ints (Nat.succ_le_of_lt hfd)
          rw [Nat.mul_succ] at this
          omega
        · rw [FdeTable.slot_div]
          exact hnot.1

/-- A registration that does not fit. -/
theorem not_admits_of_not_fits {s s' : Registry} {a : Registration w} (hs : s.Admits w)
    (ha : ¬Fits s a) (h : s.step a = some s') : ¬s'.Admits w := by
  obtain ⟨hreg, haccepted⟩ := step_cases h
  intro hs'
  refine ha ⟨(hs'.bounded _ (haccepted ▸ List.mem_cons_self ..)).2, fun j hj hlt hne => ?_⟩
  have hpos := FdeTable.ints_pos w
  have hle := (lt_tableMax a.fd.toNat s.table.max).2
  rw [← hreg.max] at hj hlt hle
  have hlow : s.table.max ≤ j / w.ints := by
    rw [Nat.le_div_iff_mul_le hpos, Nat.mul_comm]
    omega
  have hhigh : j / w.ints < s'.table.max := by
    rw [Nat.div_lt_iff_lt_mul hpos, Nat.mul_comm]
    exact hlt
  have hnot : j / w.ints ∉ s'.accepted := by
    rw [haccepted, List.mem_cons, not_or]
    exact ⟨hne, fun hin => absurd (hs.bounded _ hin).1 (Nat.not_lt.mpr hlow)⟩
  have hnull := congrFun (hs'.null _ hhigh hnot) ⟨j % w.ints, Nat.mod_lt _ hpos⟩
  rw [hreg.new _ hlow hhigh hne] at hnull
  dsimp only at hnull
  rwa [Nat.div_add_mod, if_neg (Nat.not_lt.mpr hj)] at hnull

/-- **The sequences of registrations for which the table is right** are those that fit, for
either width of a pointer. -/
theorem register_admits_iff (w : PtrWidth) (as : List (Registration w)) :
    Along step (Admits w) {} as ↔ AlongSteps step Fits {} as :=
  along_iff_of_invariant (fun _ hs => hs) (fun _ _ _ hs _ ha h => hs.step ha h)
    (fun _ _ _ hs _ ha h => not_admits_of_not_fits hs ha h) admits_init alongSteps_true

/-- A registration of the descriptor 1024. -/
def beyondFdSet : Registration .four := { fd := 1024, fde := fun _ => 1 }

/-- It is accepted, and there is no bit for it. -/
theorem register_admits_fails : ¬Along step (Admits .four) {} [beyondFdSet] := by
  intro h
  obtain ⟨s', hs'⟩ : ∃ s', Registry.step {} beyondFdSet = some s' := ⟨_, rfl⟩
  have hfits : ¬Fits {} beyondFdSet := fun hfits => absurd (fits_four.mp hfits) (by decide)
  exact not_admits_of_not_fits admits_init hfits hs' (h.2 s' hs')

end Registry

end Adbd
