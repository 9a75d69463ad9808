import Mathlib.Logic.Function.Basic
import Mathlib.Data.List.Basic
import Mathlib.Tactic.Common

/-!
# The Event Loop

`fdevent.c` keeps one `fdevent` record per watched descriptor and a doubly linked list of
the records that have events to deliver. A record is embedded in its owner (a socket, a
transport, a listener), so here it is keyed by an arbitrary type `ι` of owners: the loop
is a map from owners to records together with the pending list in order. Descriptor
numbers and the `select` sets are those of the records; the table that finds a record by
its descriptor number is not part of this module.

The event masks are the three bits `FDE_READ`, `FDE_WRITE` and `FDE_ERROR`; the state
bits `FDE_ACTIVE` and `FDE_PENDING` are separate flags.

## Main definitions

* `fdeventSet`, `fdeventAdd`, `fdeventDel`: change the interest mask of a record, with the
  adjustment of its pending events the code makes.
* `fdeventInstall`, `fdeventRemove`: the life of a record.
* `fdeventProcess`: one `select` round; `fdeventPlistDequeue` and `fdeventTake`: delivery.

## Main results

* `Loop.WF`: a record is on the pending list exactly once iff it is marked pending, and
  carries events only then; every operation keeps it.
-/

namespace Adbd

/-- The event bits `FDE_READ`, `FDE_WRITE` and `FDE_ERROR` of a mask. -/
structure Events where
  read : Bool := false
  write : Bool := false
  error : Bool := false
deriving DecidableEq, Repr

namespace Events

/-- The mask `FDE_READ`. -/
def onlyRead : Events := { read := true }

/-- The mask `FDE_WRITE`. -/
def onlyWrite : Events := { write := true }

/-- `a | b`. -/
def union (a b : Events) : Events :=
  { read := a.read || b.read, write := a.write || b.write, error := a.error || b.error }

/-- `a & ~b`. -/
def diff (a b : Events) : Events :=
  { read := a.read && !b.read, write := a.write && !b.write, error := a.error && !b.error }

/-- Every bit of `a` is a bit of `b`. -/
def Subset (a b : Events) : Prop :=
  (a.read = true → b.read = true) ∧ (a.write = true → b.write = true) ∧
    (a.error = true → b.error = true)

instance (a b : Events) : Decidable (a.Subset b) := by
  unfold Subset; infer_instance

end Events

/-- `struct fdevent`, without its list links and callback: the callback is determined by
the owner of the record. -/
structure Fdevent where
  fd : Nat := 0
  forceEof : Bool := false
  /-- `FDE_ACTIVE` -/
  active : Bool := false
  /-- `FDE_PENDING` -/
  pending : Bool := false
  /-- `state & FDE_EVENTMASK` -/
  interest : Events := {}
  events : Events := {}
deriving DecidableEq, Repr

/-- The records of the event loop and the list `list_pending`, head first. -/
structure Loop (ι : Type) where
  fdes : ι → Fdevent
  pending : List ι

namespace Loop

variable {ι : Type} [DecidableEq ι]

/-- The loop before anything is installed. -/
def empty : Loop ι := { fdes := fun _ => {}, pending := [] }

/-- Replace the record of `k`. -/
def put (l : Loop ι) (k : ι) (f : Fdevent) : Loop ι :=
  { l with fdes := Function.update l.fdes k f }

/-- `fdevent_plist_enqueue`: append to the pending list. -/
def fdeventPlistEnqueue (l : Loop ι) (k : ι) : Loop ι :=
  { l with pending := l.pending ++ [k] }

/-- `fdevent_plist_remove`: unlink from the pending list. -/
def fdeventPlistRemove (l : Loop ι) (k : ι) : Loop ι :=
  { l with pending := l.pending.erase k }

/-- `fdevent_install`: a fresh record with no interest. -/
def fdeventInstall (l : Loop ι) (k : ι) (fd : Nat) : Loop ι :=
  l.put k { fd := fd, active := true }

/-- `fdevent_remove`: unlink a pending record and clear its state. -/
def fdeventRemove (l : Loop ι) (k : ι) : Loop ι :=
  let l' := if (l.fdes k).pending then l.fdeventPlistRemove k else l
  l'.put k { l.fdes k with active := false, pending := false, interest := {}, events := {} }

/-- `fdevent_set`. If the record is pending the code clears from its pending events the
bits of the *new* mask (`fde->events &= (~events)`), and unlinks it when nothing is left. -/
def fdeventSet (l : Loop ι) (k : ι) (events : Events) : Loop ι :=
  let f := l.fdes k
  if f.interest = events then l
  else if f.pending then
    let left := f.events.diff events
    if left = {} then
      (l.fdeventPlistRemove k).put k
        { f with interest := events, events := {}, pending := false }
    else
      l.put k { f with interest := events, events := left }
  else
    l.put k { f with interest := events }

/-- `fdevent_add`. -/
def fdeventAdd (l : Loop ι) (k : ι) (events : Events) : Loop ι :=
  l.fdeventSet k ((l.fdes k).interest.union events)

/-- `fdevent_del`. -/
def fdeventDel (l : Loop ι) (k : ι) (events : Events) : Loop ι :=
  l.fdeventSet k ((l.fdes k).interest.diff events)

/-- One ready descriptor of a `select` round: merge its events into the record and link
the record unless it is pending already. -/
def fdeventReady (l : Loop ι) (k : ι) (events : Events) : Loop ι :=
  let f := l.fdes k
  if events = {} then l
  else if f.pending then
    l.put k { f with events := f.events.union events }
  else
    (l.put k { f with events := f.events.union events, pending := true }).fdeventPlistEnqueue k

/-- `fdevent_process` on the descriptors `select` reported, in the order of the scan. -/
def fdeventProcess (l : Loop ι) (ready : List (ι × Events)) : Loop ι :=
  ready.foldl (fun l r => l.fdeventReady r.1 r.2) l

/-- `fdevent_plist_dequeue`: the head of the pending list, if any. -/
def fdeventPlistDequeue (l : Loop ι) : Option (ι × Loop ι) :=
  match l.pending with
  | [] => none
  | k :: rest => some (k, { l with pending := rest })

/-- The part of `fdevent_call_fdfunc` before the callback: take the events of the record
and clear its pending mark. -/
def fdeventTake (l : Loop ι) (k : ι) : Events × Loop ι :=
  ((l.fdes k).events, l.put k { l.fdes k with events := {}, pending := false })

/-! ### Field lemmas -/

@[simp] theorem put_fdes_self (l : Loop ι) (k : ι) (f : Fdevent) : (l.put k f).fdes k = f := by
  simp [put]

theorem put_fdes_of_ne (l : Loop ι) {k j : ι} (f : Fdevent) (h : j ≠ k) :
    (l.put k f).fdes j = l.fdes j := by
  simp [put, h]

@[simp] theorem put_pending (l : Loop ι) (k : ι) (f : Fdevent) :
    (l.put k f).pending = l.pending := rfl

@[simp] theorem fdeventPlistRemove_fdes (l : Loop ι) (k : ι) :
    (l.fdeventPlistRemove k).fdes = l.fdes := rfl

/-- `fdevent_set` gives the record exactly the requested interest. -/
@[simp] theorem fdeventSet_interest (l : Loop ι) (k : ι) (ev : Events) :
    ((l.fdeventSet k ev).fdes k).interest = ev := by
  unfold fdeventSet
  by_cases h : (l.fdes k).interest = ev
  · simp [h]
  · simp only [h, if_false]
    split
    · split <;> simp
    · simp

/-- `fdevent_set` touches no other record. -/
theorem fdeventSet_fdes_of_ne (l : Loop ι) {k j : ι} (ev : Events) (h : j ≠ k) :
    (l.fdeventSet k ev).fdes j = l.fdes j := by
  unfold fdeventSet
  dsimp only
  split
  · rfl
  split
  · split <;> simp [put_fdes_of_ne _ _ h, fdeventPlistRemove]
  · exact put_fdes_of_ne _ _ h

@[simp] theorem fdeventAdd_interest (l : Loop ι) (k : ι) (ev : Events) :
    ((l.fdeventAdd k ev).fdes k).interest = (l.fdes k).interest.union ev :=
  fdeventSet_interest ..

@[simp] theorem fdeventDel_interest (l : Loop ι) (k : ι) (ev : Events) :
    ((l.fdeventDel k ev).fdes k).interest = (l.fdes k).interest.diff ev :=
  fdeventSet_interest ..

/-! ### Well-formed loops -/

/-- A record is on the pending list, once, exactly if it is marked pending; only then does
it carry events; and only an installed record is pending. -/
structure WF (l : Loop ι) : Prop where
  nodup : l.pending.Nodup
  mem : ∀ k, k ∈ l.pending ↔ (l.fdes k).pending = true
  events : ∀ k, (l.fdes k).pending = false → (l.fdes k).events = {}
  active : ∀ k, (l.fdes k).pending = true → (l.fdes k).active = true

variable {l : Loop ι} {k j : ι}

/-- Replacing a record without changing its mark keeps the loop well formed. -/
theorem WF.put (h : l.WF) {f : Fdevent} (hp : f.pending = (l.fdes k).pending)
    (he : f.pending = false → f.events = {}) (ha : f.pending = true → f.active = true) :
    (l.put k f).WF where
  nodup := h.nodup
  mem j := by
    by_cases hj : j = k
    · subst hj; simp [hp, h.mem]
    · simp [put_fdes_of_ne _ _ hj, h.mem]
  events j := by
    by_cases hj : j = k
    · subst hj; simpa using he
    · simpa [put_fdes_of_ne _ _ hj] using h.events j
  active j := by
    by_cases hj : j = k
    · subst hj; simpa using ha
    · simpa [put_fdes_of_ne _ _ hj] using h.active j

/-- Unlinking a record and clearing its mark keeps the loop well formed. -/
theorem WF.unlink (h : l.WF) {f : Fdevent} (hp : f.pending = false) (he : f.events = {}) :
    ((l.fdeventPlistRemove k).put k f).WF where
  nodup := h.nodup.erase k
  mem j := by
    by_cases hj : j = k
    · subst hj; simp [hp, fdeventPlistRemove, h.nodup.mem_erase_iff]
    · simp [put_fdes_of_ne _ _ hj, fdeventPlistRemove, h.nodup.mem_erase_iff, hj, h.mem]
  events j := by
    by_cases hj : j = k
    · subst hj; simp [he]
    · simpa [put_fdes_of_ne _ _ hj] using h.events j
  active j := by
    by_cases hj : j = k
    · subst hj; simp [hp]
    · simpa [put_fdes_of_ne _ _ hj] using h.active j

/-- The record of `k` after `fdevent_set`: among its pending events the bits of the new
mask are cleared. -/
theorem fdeventSet_fdes_self (h : l.WF) (ev : Events) :
    (l.fdeventSet k ev).fdes k =
      if (l.fdes k).interest = ev then l.fdes k
      else { l.fdes k with
        interest := ev
        events := (l.fdes k).events.diff ev
        pending := (l.fdes k).pending && decide ((l.fdes k).events.diff ev ≠ {}) } := by
  unfold fdeventSet
  by_cases hi : (l.fdes k).interest = ev
  · simp [hi]
  · by_cases hp : (l.fdes k).pending = true
    · by_cases hl : (l.fdes k).events.diff ev = {}
      · simp [hi, hl, hp]
      · simp [hi, hl, hp]
    · have he := h.events k (by simpa using hp)
      simp [hi, he, hp, Events.diff]

theorem WF.set (h : l.WF) (ev : Events) : (l.fdeventSet k ev).WF := by
  unfold fdeventSet
  by_cases hi : (l.fdes k).interest = ev
  · simpa [hi] using h
  · by_cases hp : (l.fdes k).pending = true
    · by_cases hl : (l.fdes k).events.diff ev = {}
      · simp only [hi, hp, hl, if_false, if_true]
        exact WF.unlink h
          (f := { l.fdes k with interest := ev, events := {}, pending := false })
          rfl rfl
      · simp only [hi, hp, hl, if_false, if_true]
        refine WF.put h ?_ ?_ ?_
        · simp [hp]
        · simp
        · simpa using h.active k hp
    · have he := h.events k (by simpa using hp)
      simp only [hi, hp, if_false]
      refine WF.put h ?_ ?_ ?_
      · simpa using hp
      · simpa using he
      · simp

theorem WF.add (h : l.WF) (ev : Events) : (l.fdeventAdd k ev).WF := h.set _

theorem WF.del (h : l.WF) (ev : Events) : (l.fdeventDel k ev).WF := h.set _

theorem fdeventAdd_fdes_of_ne (l : Loop ι) (ev : Events) (hj : j ≠ k) :
    (l.fdeventAdd k ev).fdes j = l.fdes j :=
  fdeventSet_fdes_of_ne l _ hj

theorem fdeventDel_fdes_of_ne (l : Loop ι) (ev : Events) (hj : j ≠ k) :
    (l.fdeventDel k ev).fdes j = l.fdes j :=
  fdeventSet_fdes_of_ne l _ hj

/-- `fdevent_set` neither installs a record nor gives it events. -/
theorem fdeventSet_sub (h : l.WF) (ev : Events) :
    ((l.fdeventSet k ev).fdes k).active = (l.fdes k).active ∧
      ((l.fdeventSet k ev).fdes k).forceEof = (l.fdes k).forceEof ∧
      ((l.fdeventSet k ev).fdes k).events.Subset (l.fdes k).events := by
  rw [fdeventSet_fdes_self h]
  split
  · simp [Events.Subset]
  · simp only [Events.Subset, Events.diff, Bool.and_eq_true, true_and]
    exact ⟨fun h => h.1, fun h => h.1, fun h => h.1⟩

/-- A record without events has none after `fdevent_set`. -/
theorem fdeventSet_events_nil (h : l.WF) (ev : Events) (he : (l.fdes k).events = {}) :
    ((l.fdeventSet k ev).fdes k).events = {} := by
  rw [fdeventSet_fdes_self h]
  split
  · exact he
  · simp [he, Events.diff]

/-- The record of `k` after `fdevent_remove`. -/
theorem fdeventRemove_fdes_self (l : Loop ι) (k : ι) :
    (l.fdeventRemove k).fdes k =
      { l.fdes k with active := false, pending := false, interest := {}, events := {} } := by
  simp [fdeventRemove]

theorem fdeventRemove_fdes_of_ne (l : Loop ι) (hj : j ≠ k) :
    (l.fdeventRemove k).fdes j = l.fdes j := by
  unfold fdeventRemove
  dsimp only
  split
  · exact put_fdes_of_ne _ _ hj
  · exact put_fdes_of_ne _ _ hj

theorem WF.remove (h : l.WF) (k : ι) : (l.fdeventRemove k).WF := by
  unfold fdeventRemove
  by_cases hp : (l.fdes k).pending = true
  · simp only [hp, if_true]
    exact WF.unlink h rfl rfl
  · simp only [hp]
    refine WF.put h ?_ ?_ ?_
    · simpa using hp
    · simp
    · simp

theorem fdeventInstall_fdes_self (l : Loop ι) (k : ι) (fd : Nat) :
    (l.fdeventInstall k fd).fdes k = { fd := fd, active := true } := by
  simp [fdeventInstall]

theorem fdeventInstall_fdes_of_ne (l : Loop ι) (fd : Nat) (hj : j ≠ k) :
    (l.fdeventInstall k fd).fdes j = l.fdes j :=
  put_fdes_of_ne _ _ hj

/-- Installing a record that is not pending keeps the loop well formed. -/
theorem WF.install (h : l.WF) (fd : Nat) (hp : (l.fdes k).pending = false) :
    (l.fdeventInstall k fd).WF :=
  h.put (by simp [hp]) (fun _ => rfl) (by simp)

/-- The record of `j` after one descriptor of a `select` round. -/
theorem fdeventReady_fdes (l : Loop ι) (k j : ι) (ev : Events) :
    (l.fdeventReady k ev).fdes j =
      if j = k ∧ ev ≠ {} then
        { l.fdes j with events := (l.fdes j).events.union ev, pending := true }
      else l.fdes j := by
  unfold fdeventReady
  by_cases he : ev = {}
  · simp [he]
  · by_cases hp : (l.fdes k).pending = true
    · by_cases hj : j = k
      · subst hj; simp [he, hp]
      · simp [he, hp, hj, put_fdes_of_ne _ _ hj]
    · by_cases hj : j = k
      · subst hj; simp [he, hp, fdeventPlistEnqueue]
      · simp [he, hp, hj, put_fdes_of_ne _ _ hj, fdeventPlistEnqueue]

/-- A `select` round changes no interest. -/
@[simp] theorem fdeventReady_interest (l : Loop ι) (k j : ι) (ev : Events) :
    ((l.fdeventReady k ev).fdes j).interest = (l.fdes j).interest := by
  rw [fdeventReady_fdes]
  split <;> rfl

theorem WF.ready (h : l.WF) (ev : Events) (ha : (l.fdes k).active = true) :
    (l.fdeventReady k ev).WF := by
  unfold fdeventReady
  by_cases he : ev = {}
  · simpa [he] using h
  · by_cases hp : (l.fdes k).pending = true
    · simp only [he, hp, if_false, if_true]
      refine WF.put h ?_ ?_ ?_
      · simp [hp]
      · simp
      · simpa using ha
    · simp only [he, hp, if_false]
      have hk : k ∉ l.pending := by simp [h.mem, hp]
      refine ⟨?_, fun j => ?_, fun j => ?_, fun j => ?_⟩
      · refine List.nodup_append.mpr ⟨h.nodup, by simp, fun x hx y hy hxy => hk ?_⟩
        rw [List.mem_singleton.mp hy] at hxy
        exact hxy ▸ hx
      · by_cases hj : j = k
        · subst hj; simp [fdeventPlistEnqueue]
        · simp [fdeventPlistEnqueue, put_fdes_of_ne _ _ hj, hj, h.mem]
      · by_cases hj : j = k
        · subst hj; simp [fdeventPlistEnqueue]
        · simpa [fdeventPlistEnqueue, put_fdes_of_ne _ _ hj] using h.events j
      · by_cases hj : j = k
        · subst hj; simp [fdeventPlistEnqueue, ha]
        · simpa [fdeventPlistEnqueue, put_fdes_of_ne _ _ hj] using h.active j

/-- What a `select` round does to a record: it keeps its interest, and gets only events
that were reported for it. -/
theorem fdeventProcess_fdes (l : Loop ι) (rs : List (ι × Events)) (j : ι) :
    ((l.fdeventProcess rs).fdes j).active = (l.fdes j).active ∧
      ((l.fdeventProcess rs).fdes j).interest = (l.fdes j).interest ∧
      ((l.fdeventProcess rs).fdes j).forceEof = (l.fdes j).forceEof ∧
      ((∀ r ∈ rs, r.1 ≠ j) → (l.fdeventProcess rs).fdes j = l.fdes j) ∧
      (((l.fdeventProcess rs).fdes j).events.write = true →
        (l.fdes j).events.write = true ∨ ∃ r ∈ rs, r.1 = j ∧ r.2.write = true) ∧
      (((l.fdeventProcess rs).fdes j).events.read = true →
        (l.fdes j).events.read = true ∨ ∃ r ∈ rs, r.1 = j ∧ r.2.read = true) := by
  induction rs generalizing l with
  | nil => simp [fdeventProcess]
  | cons r rs ih =>
      obtain ⟨ha, hi, hf, hn, hw, hr⟩ := ih (l.fdeventReady r.1 r.2)
      have hstep := fdeventReady_fdes l r.1 j r.2
      have hcons : l.fdeventProcess (r :: rs) = (l.fdeventReady r.1 r.2).fdeventProcess rs :=
        rfl
      rw [hcons]
      by_cases hj : j = r.1 ∧ r.2 ≠ {}
      · rw [if_pos hj] at hstep
        rw [hstep] at ha hi hf hw hr
        refine ⟨ha, hi, hf, fun hno => absurd hj.1.symm (hno r (by simp)), fun hw' => ?_,
          fun hr' => ?_⟩
        · rcases hw hw' with h | ⟨r', hm, h⟩
          · simp only [Events.union, Bool.or_eq_true] at h
            exact h.imp_right fun h => ⟨r, by simp, hj.1.symm, h⟩
          · exact .inr ⟨r', by simp [hm], h⟩
        · rcases hr hr' with h | ⟨r', hm, h⟩
          · simp only [Events.union, Bool.or_eq_true] at h
            exact h.imp_right fun h => ⟨r, by simp, hj.1.symm, h⟩
          · exact .inr ⟨r', by simp [hm], h⟩
      · rw [if_neg hj] at hstep
        rw [hstep] at ha hi hf hw hr hn
        refine ⟨ha, hi, hf, fun hno => hn fun r' hm => hno r' (by simp [hm]), fun hw' => ?_,
          fun hr' => ?_⟩
        · exact (hw hw').imp_right fun ⟨r', hm, h⟩ => ⟨r', by simp [hm], h⟩
        · exact (hr hr').imp_right fun ⟨r', hm, h⟩ => ⟨r', by simp [hm], h⟩

theorem WF.process (h : l.WF) (rs : List (ι × Events))
    (ha : ∀ r ∈ rs, (l.fdes r.1).active = true) : (l.fdeventProcess rs).WF := by
  induction rs generalizing l with
  | nil => exact h
  | cons r rs ih =>
      refine ih (h.ready r.2 (ha r (by simp))) fun r' hm => ?_
      rw [fdeventReady_fdes]
      split
      · exact ha r' (by simp [hm])
      · exact ha r' (by simp [hm])

/-- Taking the events of the first pending record keeps the loop well formed. -/
theorem WF.take (h : l.WF) {rest : List ι} (hp : l.pending = k :: rest) :
    (({ l with pending := rest } : Loop ι).fdeventTake k).2.WF := by
  have hnd := h.nodup
  rw [hp, List.nodup_cons] at hnd
  refine ⟨hnd.2, fun j => ?_, fun j => ?_, fun j => ?_⟩
  · by_cases hj : j = k
    · subst hj; simp [fdeventTake, hnd.1]
    · have hm := h.mem j
      rw [hp, List.mem_cons] at hm
      simp only [fdeventTake, put_pending, put_fdes_of_ne _ _ hj]
      rw [← hm]
      simp [hj]
  · by_cases hj : j = k
    · subst hj; simp [fdeventTake]
    · simpa [fdeventTake, put_fdes_of_ne _ _ hj] using h.events j
  · by_cases hj : j = k
    · subst hj; simp [fdeventTake]
    · simpa [fdeventTake, put_fdes_of_ne _ _ hj] using h.active j

end Loop

end Adbd
