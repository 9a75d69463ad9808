import Adbd.Runs
import Adbd.ShellExit

/-!
# Interest and Dispatch

`fdevent_loop` alternates between `select` rounds, which link the records of the ready
descriptors into the pending list, and callbacks, which are made from that list and may
change the interest of any record, remove it or install others. This module adds to the
records what decides which events they get: the table that finds a record by its descriptor
and the three descriptor sets given to `select`.

A callback gets the events its record is interested in, with one exception by design: the
code fakes `FDE_READ` for a descriptor that turns out to be bad, and for the output of a
shell that exited, so that the error or the end is found by reading.

Where `fdevent_set` changes the mask of a pending record, it clears the wanted bits of the
pending events in place of the unwanted ones (`Loop.fdeventSet`); nothing is said here about
runs in which this happens.

## Main definitions

* `EventLoop`, `LoopAct`, `EventLoop.step`: the loop and what it and its callbacks do.
* `Retargets`: the mask of a pending record is changed.
* `RespectsInterest`: what the next callback gets is wanted.

## Main results

* `EventLoop.WF.step`: the sets given to `select` agree with the interest of the records, and
  pending events are wanted.
* `dispatch_respects_interest`: every callback from the pending list gets wanted events.
-/

namespace Adbd

open Runs

namespace Events

/-- `a & b` where `b` is all bits or none. -/
def keepIf (a : Events) (b : Bool) : Events := if b then a else {}

theorem Subset.refl (a : Events) : a.Subset a := ⟨id, id, id⟩

theorem Subset.trans {a b c : Events} (h : a.Subset b) (h' : b.Subset c) : a.Subset c :=
  ⟨fun x => h'.1 (h.1 x), fun x => h'.2.1 (h.2.1 x), fun x => h'.2.2 (h.2.2 x)⟩

theorem empty_subset (a : Events) : Subset {} a := ⟨nofun, nofun, nofun⟩

theorem subset_union_left (a b : Events) : a.Subset (a.union b) := by
  simp +contextual [Subset, union]

theorem subset_union_right (a b : Events) : b.Subset (a.union b) := by
  simp +contextual [Subset, union]

theorem union_subset {a b c : Events} (ha : a.Subset c) (hb : b.Subset c) :
    (a.union b).Subset c := by
  simp only [Subset, union, Bool.or_eq_true]
  exact ⟨fun h => h.elim ha.1 hb.1, fun h => h.elim ha.2.1 hb.2.1,
    fun h => h.elim ha.2.2 hb.2.2⟩

theorem union_subset_union_right {a b c : Events} (h : b.Subset c) :
    (a.union b).Subset (a.union c) :=
  union_subset (subset_union_left ..) (h.trans (subset_union_right ..))

theorem keepIf_mono {a : Events} {b c : Bool} (h : b = true → c = true) :
    (a.keepIf b).Subset (a.keepIf c) := by
  cases b with
  | false => exact empty_subset _
  | true => rw [h rfl]; exact .refl _

/-- A mask with a bit more is not empty. -/
theorem union_ne_empty {a b : Events} (h : b ≠ {}) : a.union b ≠ {} := by
  intro hu
  simp only [union, Events.mk.injEq, Bool.or_eq_false_iff] at hu
  apply h
  obtain ⟨read, write, error⟩ := b
  simp_all

end Events

/-- The record the handler of shell exits found, after it. -/
theorem Loop.subprocExit_eq {ι : Type} [DecidableEq ι] (l : Loop ι) (k : ι) (rcount : Nat) :
    (l.subprocExit k rcount).1 = l.put k { l.fdes k with
      forceEof := true
      events := if rcount ≠ 0 then (l.fdes k).events
        else if (l.fdes k).pending then (l.fdes k).events.union .onlyRead else {} } := by
  unfold Loop.subprocExit
  by_cases hr : rcount = 0
  · cases hp : (l.fdes k).pending with
    | true => simp [hr, hp, Loop.put]
    | false => simp [hr, hp, Loop.put]
  · simp [hr]

/-- What `select` returns: the events of the descriptors that are ready; an error other than
`EBADF`, after which the round ends; or `EBADF` or nothing at all, after which every
descriptor is checked. -/
inductive SelectResult
  | ready (reported : Nat → Events)
  | failed
  | checked (bad : Nat → Bool)

/-- The event loop: the records and the pending list, `fd_table`, `select_n` and the sets
`read_fds`, `write_fds` and `error_fds` by descriptor. The field `forced` is not in the
source: it marks the records for which a read was faked since their events were last taken. -/
structure EventLoop (ι : Type) where
  loop : Loop ι
  fdTable : Nat → Option ι
  selectN : Nat
  fdSets : Nat → Events
  forced : ι → Bool

namespace EventLoop

variable {ι : Type} [DecidableEq ι]

/-- The loop at the start of the daemon. -/
def init : EventLoop ι :=
  { loop := .empty, fdTable := fun _ => none, selectN := 0, fdSets := fun _ => {},
    forced := fun _ => false }

/-- The record of `k`. -/
abbrev fde (e : EventLoop ι) (k : ι) : Fdevent := e.loop.fdes k

/-- `fdevent_install`: register the record and let `select` look at its descriptor. -/
def fdeventInstall (e : EventLoop ι) (k : ι) (fd : Nat) : EventLoop ι :=
  { e with
    loop := e.loop.fdeventInstall k fd
    fdTable := Function.update e.fdTable fd (some k)
    selectN := if e.selectN ≤ fd then fd + 1 else e.selectN
    forced := Function.update e.forced k false }

/-- The largest registered descriptor below `n`, as `fdevent_disconnect` finds it. -/
def lastRegistered (e : EventLoop ι) (n : Nat) : Nat :=
  (List.range n).foldl (fun m i => if (e.fdTable i).isSome then i else m) 0

/-- `fdevent_remove`; the error is the `FATAL` of `fdevent_unregister`. -/
def fdeventRemove (e : EventLoop ι) (k : ι) : Option (EventLoop ι) :=
  let f := e.fde k
  if f.active then
    if e.fdTable f.fd = some k then
      some
        { loop := e.loop.fdeventRemove k
          fdTable := Function.update e.fdTable f.fd none
          selectN := e.lastRegistered e.selectN + 1
          fdSets := Function.update e.fdSets f.fd {}
          forced := Function.update e.forced k false }
    else none
  else
    some { e with loop := e.loop.fdeventRemove k, forced := Function.update e.forced k false }

/-- `fdevent_set`: the sets given to `select` follow the interest of an active record. -/
def fdeventSet (e : EventLoop ι) (k : ι) (ev : Events) : EventLoop ι :=
  let f := e.fde k
  if f.interest = ev then e
  else
    { e with
      loop := e.loop.fdeventSet k ev
      fdSets := if f.active then Function.update e.fdSets f.fd ev else e.fdSets }

/-- `fdevent_add`. -/
def fdeventAdd (e : EventLoop ι) (k : ι) (ev : Events) : EventLoop ι :=
  e.fdeventSet k ((e.fde k).interest.union ev)

/-- `fdevent_del`. -/
def fdeventDel (e : EventLoop ι) (k : ι) (ev : Events) : EventLoop ι :=
  e.fdeventSet k ((e.fde k).interest.diff ev)

/-- `fdevent_fd_check`: a read is faked for the registered descriptors that are bad. -/
def fdeventFdCheck (e : EventLoop ι) (bad : Nat → Bool) (fd : Nat) : Events :=
  if (e.fdTable fd).isSome ∧ bad fd then .onlyRead else {}

/-- One descriptor of the scan of `fdevent_process`; the error is the `FATAL` for a
descriptor without a record. -/
def scanFd (e : EventLoop ι) (fake : Bool) (fd : Nat) (ev : Events) : Option (EventLoop ι) :=
  if ev = {} then some e
  else
    match e.fdTable fd with
    | none => none
    | some k =>
        some { e with
          loop := e.loop.fdeventReady k ev
          forced := if fake then Function.update e.forced k true else e.forced }

/-- The scan of `fdevent_process` over the descriptors in order. The count of events left to
find, with which the scan ends early, is left out: what follows the last one is skipped. -/
def scan (e : EventLoop ι) (fake : Bool) (found : Nat → Events) : Option (EventLoop ι) :=
  (List.range e.selectN).foldlM (fun e fd => e.scanFd fake fd (found fd)) e

/-- `fdevent_process`. -/
def fdeventProcess (e : EventLoop ι) : SelectResult → Option (EventLoop ι)
  | .ready reported => e.scan false reported
  | .failed => some e
  | .checked bad => e.scan true (e.fdeventFdCheck bad)

/-- `fdevent_call_fdfunc`: the events the callback gets, if it is made. -/
def fdeventCallFdfunc (e : EventLoop ι) (k : ι) : Option Events × EventLoop ι :=
  let f := e.fde k
  if f.pending then
    (some f.events, { e with
      loop := (e.loop.fdeventTake k).2, forced := Function.update e.forced k false })
  else (none, { e with loop := e.loop.put k { f with events := {} } })

/-- The next callback of `fdevent_loop`: the record at the front of the pending list. -/
def dispatch (e : EventLoop ι) : Option (ι × Option Events × EventLoop ι) :=
  match e.loop.fdeventPlistDequeue with
  | none => none
  | some (k, l) => some (k, { e with loop := l }.fdeventCallFdfunc k)

/-- `fdevent_subproc_event_func`, for a notification about descriptor `fd` with `rcount` bytes
left to read. A record that is not pending is called at once, not from the pending list. -/
def fdeventSubprocEventFunc (e : EventLoop ι) (fd rcount : Nat) : EventLoop ι :=
  match e.fdTable fd with
  | none => e
  | some k =>
      if (e.fde k).fd ≠ fd then e
      else
        { e with
          loop := (e.loop.subprocExit k rcount).1
          forced := if rcount = 0 ∧ (e.fde k).pending then Function.update e.forced k true
            else e.forced }

end EventLoop

/-- What the loop and its callbacks do. -/
inductive LoopAct (ι : Type)
  | install (k : ι) (fd : Nat)
  | remove (k : ι)
  | set (k : ι) (ev : Events)
  | add (k : ι) (ev : Events)
  | del (k : ι) (ev : Events)
  | subprocExit (fd rcount : Nat)
  | process (r : SelectResult)
  | dispatch

namespace EventLoop

variable {ι : Type} [DecidableEq ι]

/-- One action. Only a record that is not installed is installed, on a descriptor without a
record, and `select` reports events of the sets it was given only. -/
def step (e : EventLoop ι) : LoopAct ι → Option (EventLoop ι)
  | .install k fd =>
      if (e.fde k).active ∨ (e.fdTable fd).isSome then none else some (e.fdeventInstall k fd)
  | .remove k => e.fdeventRemove k
  | .set k ev => some (e.fdeventSet k ev)
  | .add k ev => some (e.fdeventAdd k ev)
  | .del k ev => some (e.fdeventDel k ev)
  | .subprocExit fd rcount => some (e.fdeventSubprocEventFunc fd rcount)
  | .process (.ready reported) =>
      if ∀ fd < e.selectN, (reported fd).Subset (e.fdSets fd) then e.fdeventProcess
        (.ready reported)
      else none
  | .process r => e.fdeventProcess r
  | .dispatch => e.dispatch.map fun r => r.2.2

/-- The action changes the mask of a pending record. -/
def Retargets (e : EventLoop ι) : LoopAct ι → Prop
  | .set k ev => (e.fde k).pending = true ∧ (e.fde k).interest ≠ ev
  | .add k ev => (e.fde k).pending = true ∧ (e.fde k).interest ≠ (e.fde k).interest.union ev
  | .del k ev => (e.fde k).pending = true ∧ (e.fde k).interest ≠ (e.fde k).interest.diff ev
  | _ => False

/-- The events a record may get: those it is interested in, and a faked read. -/
def wanted (e : EventLoop ι) (k : ι) : Events :=
  (e.fde k).interest.union (Events.onlyRead.keepIf (e.forced k))

/-- The next callback from the pending list gets events, and only wanted ones. -/
def RespectsInterest (e : EventLoop ι) : Prop :=
  ∀ k ev e', e.dispatch = some (k, some ev, e') → ev ≠ {} ∧ ev.Subset (e.wanted k)

end EventLoop

/-! ### The invariant -/

namespace EventLoop

variable {ι : Type} {e e' : EventLoop ι} {k : ι}

/-- The table has the installed records by their descriptors, the sets given to `select` are
their interests, and the pending events of a record are wanted. -/
structure WF (e : EventLoop ι) : Prop where
  loop : e.loop.WF
  table : ∀ fd k, e.fdTable fd = some k ↔ (e.fde k).active = true ∧ (e.fde k).fd = fd
  sets : ∀ k, (e.fde k).active = true → e.fdSets (e.fde k).fd = (e.fde k).interest
  free : ∀ fd, e.fdTable fd = none → e.fdSets fd = {}
  events : ∀ k, (e.fde k).pending = true → (e.fde k).events ≠ {}
  subset : ∀ k, (e.fde k).events.Subset (e.wanted k)

namespace WF

/-- The loop at the start. -/
theorem init : (init : EventLoop ι).WF where
  loop := ⟨.nil, by simp [EventLoop.init, Loop.empty], fun _ _ => rfl, nofun⟩
  table fd k := by simp [EventLoop.init, fde, Loop.empty]
  sets k hk := nomatch hk
  free fd _ := rfl
  events k hk := nomatch hk
  subset k := Events.empty_subset _

/-- Two installed records have different descriptors. -/
theorem fd_inj (h : e.WF) {j : ι} (hk : (e.fde k).active = true) (hj : (e.fde j).active = true)
    (hfd : (e.fde j).fd = (e.fde k).fd) : j = k := by
  have hk' := (h.table _ k).mpr ⟨hk, rfl⟩
  have hj' := (h.table _ j).mpr ⟨hj, hfd⟩
  rw [hk'] at hj'
  exact (Option.some.inj hj').symm

variable [DecidableEq ι]

/-- A change of one record, with the table and the sets adjusted to it. -/
theorem of_record (h : e.WF) (k : ι) (hl : e'.loop.WF)
    (hsame : ∀ j, j ≠ k → e'.fde j = e.fde j ∧ e'.forced j = e.forced j)
    (htable : ∀ fd j, e'.fdTable fd = some j ↔ (e'.fde j).active = true ∧ (e'.fde j).fd = fd)
    (hsets : ∀ j, j ≠ k → (e.fde j).active = true →
      e'.fdSets (e.fde j).fd = e.fdSets (e.fde j).fd)
    (hset : (e'.fde k).active = true → e'.fdSets (e'.fde k).fd = (e'.fde k).interest)
    (hfree : ∀ fd, e'.fdTable fd = none → e'.fdSets fd = {})
    (hne : (e'.fde k).pending = true → (e'.fde k).events ≠ {})
    (hsub : (e'.fde k).events.Subset (e'.wanted k)) : e'.WF := by
  refine ⟨hl, htable, fun j hj => ?_, hfree, fun j hj => ?_, fun j => ?_⟩
  · by_cases hjk : j = k
    · subst hjk
      exact hset hj
    · rw [(hsame j hjk).1] at hj ⊢
      rw [hsets j hjk hj]
      exact h.sets j hj
  · by_cases hjk : j = k
    · subst hjk
      exact hne hj
    · rw [(hsame j hjk).1] at hj ⊢
      exact h.events j hj
  · by_cases hjk : j = k
    · subst hjk
      exact hsub
    · rw [wanted, (hsame j hjk).1, (hsame j hjk).2]
      exact h.subset j

/-- The table entries of records that keep their descriptor and stay installed. -/
theorem table_same (h : e.WF) (htable : e'.fdTable = e.fdTable)
    (hsame : ∀ j, j ≠ k → e'.fde j = e.fde j)
    (hk : (e'.fde k).active = (e.fde k).active ∧ (e'.fde k).fd = (e.fde k).fd) (fd : Nat)
    (j : ι) :
    e'.fdTable fd = some j ↔ (e'.fde j).active = true ∧ (e'.fde j).fd = fd := by
  rw [htable]
  by_cases hj : j = k
  · subst hj
    rw [hk.1, hk.2]
    exact h.table fd j
  · rw [hsame j hj]
    exact h.table fd j

/-- A change of the events of one record. -/
theorem change (h : e.WF) (k : ι) (hl : e'.loop.WF) (htable : e'.fdTable = e.fdTable)
    (hsets : e'.fdSets = e.fdSets)
    (hsame : ∀ j, j ≠ k → e'.fde j = e.fde j ∧ e'.forced j = e.forced j)
    (hk : (e'.fde k).active = (e.fde k).active ∧ (e'.fde k).fd = (e.fde k).fd ∧
      (e'.fde k).interest = (e.fde k).interest)
    (hne : (e'.fde k).pending = true → (e'.fde k).events ≠ {})
    (hsub : (e'.fde k).events.Subset (e'.wanted k)) : e'.WF := by
  refine h.of_record k hl hsame
    (h.table_same htable (fun j hj => (hsame j hj).1) ⟨hk.1, hk.2.1⟩)
    (fun j _ _ => by rw [hsets]) (fun hact => ?_) (fun fd hfd => ?_) hne hsub
  · rw [hsets, hk.2.1, hk.2.2]
    exact h.sets k (hk.1 ▸ hact)
  · rw [hsets]
    exact h.free fd (htable ▸ hfd)

/-- `fdevent_install` of a record that is not installed. -/
theorem install (h : e.WF) {fd : Nat} (hk : (e.fde k).active = false)
    (hfd : e.fdTable fd = none) :
    (e.fdeventInstall k fd).WF := by
  have hp : (e.fde k).pending = false := by
    by_contra hp
    rw [h.loop.active k (by simpa using hp)] at hk
    cases hk
  have hself : (e.fdeventInstall k fd).fde k = { fd := fd, active := true } :=
    Loop.fdeventInstall_fdes_self ..
  have hother (j : ι) (hj : j ≠ k) : (e.fdeventInstall k fd).fde j = e.fde j :=
    Loop.fdeventInstall_fdes_of_ne _ _ hj
  have htable : (e.fdeventInstall k fd).fdTable = Function.update e.fdTable fd (some k) := rfl
  refine h.of_record k (h.loop.install fd hp)
    (fun j hj => ⟨hother j hj, Function.update_of_ne hj ..⟩)
    (fun fd' j => ?_) (fun _ _ _ => rfl) (fun _ => ?_) (fun fd' hfd' => ?_) (fun hpk => ?_) ?_
  · rw [htable]
    by_cases hjk : j = k
    · subst hjk
      rw [hself]
      by_cases hf : fd' = fd
      · simp [hf]
      · rw [Function.update_of_ne hf, h.table]
        simp [hk, Ne.symm hf]
    · rw [hother j hjk]
      by_cases hf : fd' = fd
      · subst hf
        rw [Function.update_self, ← h.table, hfd]
        simp [Ne.symm hjk]
      · rw [Function.update_of_ne hf, h.table]
  · rw [hself]
    exact h.free fd hfd
  · refine h.free fd' ?_
    by_cases hf : fd' = fd
    · rw [hf]
      exact hfd
    · exact (Function.update_of_ne hf ..).symm.trans hfd'
  · rw [hself] at hpk
    cases hpk
  · rw [hself]
    exact Events.empty_subset _

/-- `fdevent_remove`. -/
theorem remove (h : e.WF) (hs : e.fdeventRemove k = some e') : e'.WF := by
  have hself : (e.loop.fdeventRemove k).fdes k =
      { e.fde k with active := false, pending := false, interest := {}, events := {} } :=
    Loop.fdeventRemove_fdes_self ..
  have hother (j : ι) (hj : j ≠ k) : (e.loop.fdeventRemove k).fdes j = e.fde j :=
    Loop.fdeventRemove_fdes_of_ne _ hj
  unfold EventLoop.fdeventRemove at hs
  dsimp only at hs
  split at hs
  · next hact =>
    split at hs
    · obtain rfl := Option.some.inj hs
      refine h.of_record k (h.loop.remove k)
        (fun j hj => ⟨hother j hj, Function.update_of_ne hj ..⟩) (fun fd j => ?_)
          (fun j hj hact' => ?_)
        (fun hk => ?_) (fun fd hfd => ?_) (fun hk => ?_) ?_
      · by_cases hjk : j = k
        · subst hjk
          simp only [fde, hself, Bool.false_eq_true, false_and, iff_false]
          by_cases hf : fd = (e.fde j).fd
          · simp [hf]
          · rw [Function.update_of_ne hf, h.table]
            exact fun hc => hf hc.2.symm
        · simp only [fde, hother j hjk]
          by_cases hf : fd = (e.fde k).fd
          · subst hf
            rw [Function.update_self]
            refine iff_of_false (by simp) fun hc => hjk (h.fd_inj hact hc.1 hc.2)
          · rw [Function.update_of_ne hf, h.table]
      · exact Function.update_of_ne (fun hf => hj (h.fd_inj hact hact' hf)) ..
      · simp only [fde, hself] at hk
        cases hk
      · dsimp only at hfd ⊢
        by_cases hf : fd = (e.fde k).fd
        · rw [hf, Function.update_self]
        · rw [Function.update_of_ne hf] at hfd ⊢
          exact h.free fd hfd
      · simp only [fde, hself] at hk
        cases hk
      · simp only [fde, hself]
        exact Events.empty_subset _
    · cases hs
  · next hact =>
    obtain rfl := Option.some.inj hs
    refine h.of_record k (h.loop.remove k)
      (fun j hj => ⟨hother j hj, Function.update_of_ne hj ..⟩)
      (h.table_same (k := k) rfl hother ?_) (fun _ _ _ => rfl) (fun hk => ?_) h.free
        (fun hk => ?_) ?_
    · simp only [fde, hself, and_true]
      simpa using hact
    · simp only [fde, hself] at hk
      cases hk
    · simp only [fde, hself] at hk
      cases hk
    · simp only [fde, hself]
      exact Events.empty_subset _

/-- `fdevent_set` that leaves the mask of a pending record alone. -/
theorem set (h : e.WF) {ev : Events}
    (hp : (e.fde k).pending = true → (e.fde k).interest = ev) :
    (e.fdeventSet k ev).WF := by
  unfold EventLoop.fdeventSet
  by_cases hi : (e.fde k).interest = ev
  · rw [if_pos hi]
    exact h
  · rw [if_neg hi]
    have hoff : (e.fde k).pending = false := by simpa using mt hp hi
    have hself : (e.loop.fdeventSet k ev).fdes k = { e.fde k with interest := ev } := by
      have hev := h.loop.events k hoff
      rw [Loop.fdeventSet_fdes_self h.loop, if_neg hi]
      simp only [fde] at hoff ⊢
      simp [hev, hoff, Events.diff]
    have hother (j : ι) (hj : j ≠ k) : (e.loop.fdeventSet k ev).fdes j = e.fde j :=
      Loop.fdeventSet_fdes_of_ne _ _ hj
    refine h.of_record k (h.loop.set ev) (fun j hj => ⟨hother j hj, rfl⟩)
      (h.table_same rfl hother ?_) (fun j hj hact' => ?_) (fun hk => ?_) (fun fd hfd => ?_)
      (fun hk => ?_) ?_
    · simp only [fde, hself, and_self]
    · dsimp only
      split
      · next hact => exact Function.update_of_ne (fun hf => hj (h.fd_inj hact hact' hf)) ..
      · rfl
    · simp only [fde, hself] at hk ⊢
      rw [if_pos hk, Function.update_self]
    · dsimp only at hfd ⊢
      split
      · next hact =>
        have hf : fd ≠ (e.fde k).fd := by
          rintro rfl
          rw [(h.table _ k).mpr ⟨hact, rfl⟩] at hfd
          cases hfd
        rw [Function.update_of_ne hf]
        exact h.free fd hfd
      · exact h.free fd hfd
    · simp only [fde, hself] at hk hoff
      rw [hoff] at hk
      cases hk
    · have hev := h.loop.events k hoff
      simp only [fde, hself, hev]
      exact Events.empty_subset _

/-- One descriptor of a scan. -/
theorem scanFd (h : e.WF) {fake : Bool} {fd : Nat} {ev : Events}
    (hev : ev.Subset ((e.fdSets fd).union (Events.onlyRead.keepIf fake)))
    (hs : e.scanFd fake fd ev = some e') :
    e'.WF ∧ e'.fdSets = e.fdSets := by
  unfold EventLoop.scanFd at hs
  split at hs
  · obtain rfl := Option.some.inj hs
    exact ⟨h, rfl⟩
  · next hne =>
    split at hs
    · cases hs
    · next k hk =>
      obtain rfl := Option.some.inj hs
      obtain ⟨hact, rfl⟩ := (h.table fd k).mp hk
      refine ⟨h.change k (h.loop.ready ev hact) rfl rfl (fun j hj => ⟨?_, ?_⟩)
        ⟨?_, ?_, ?_⟩ ?_ ?_, rfl⟩
      · simp only [fde, Loop.fdeventReady_fdes, hj, false_and, if_false]
      · dsimp only
        split
        · exact Function.update_of_ne hj ..
        · rfl
      · simp [fde, Loop.fdeventReady_fdes, hne]
      · simp [fde, Loop.fdeventReady_fdes, hne]
      · simp [fde, Loop.fdeventReady_fdes, hne]
      · intro _
        simp only [fde, Loop.fdeventReady_fdes, hne, ne_eq, not_false_eq_true, and_self,
          if_true]
        exact Events.union_ne_empty hne
      · have hself : (e.loop.fdeventReady k ev).fdes k =
            { e.fde k with events := (e.fde k).events.union ev, pending := true } := by
          rw [Loop.fdeventReady_fdes, if_pos ⟨rfl, hne⟩]
        have hforced : (if fake then Function.update e.forced k true else e.forced) k =
            (fake || e.forced k) := by
          cases fake with
          | true => simp
          | false => simp
        rw [h.sets k hact] at hev
        simp only [wanted, fde, hself, hforced]
        refine Events.union_subset ((h.subset k).trans ?_) (hev.trans ?_)
        · exact Events.union_subset_union_right (Events.keepIf_mono fun hf => by simp [hf])
        · exact Events.union_subset_union_right (Events.keepIf_mono fun hf => by simp [hf])

/-- A scan of descriptors that are ready, or for which a read is faked. -/
theorem scan (h : e.WF) {fake : Bool} {found : Nat → Events} {fds : List Nat}
    (hfound : ∀ fd ∈ fds,
      (found fd).Subset ((e.fdSets fd).union (Events.onlyRead.keepIf fake)))
    (hs : fds.foldlM (fun e fd => e.scanFd fake fd (found fd)) e = some e') : e'.WF := by
  induction fds generalizing e with
  | nil =>
      obtain rfl := Option.some.inj hs
      exact h
  | cons fd fds ih =>
      obtain ⟨e₁, hs₁, hs⟩ := Option.bind_eq_some_iff.mp hs
      obtain ⟨hw, hsets⟩ := h.scanFd (hfound fd (by simp)) hs₁
      refine ih hw (fun fd' hfd' => ?_) hs
      rw [hsets]
      exact hfound fd' (by simp [hfd'])

/-- `fdevent_subproc_event_func`. -/
theorem subprocExit (h : e.WF) (fd rcount : Nat) :
    (e.fdeventSubprocEventFunc fd rcount).WF := by
  unfold EventLoop.fdeventSubprocEventFunc
  split
  · exact h
  split
  · exact h
  · next k hk _ =>
    have hact : (e.loop.fdes k).active = true := ((h.table fd k).mp hk).1
    have hl := e.loop.subprocExit_eq k rcount
    refine h.change k ?_ rfl rfl (fun j hj => ⟨?_, ?_⟩) ⟨?_, ?_, ?_⟩ (fun hp => ?_) ?_
    · dsimp only
      rw [hl]
      refine h.loop.put rfl (fun hp => ?_) fun _ => hact
      dsimp only at hp ⊢
      rw [hp]
      split
      · exact h.loop.events k hp
      · rfl
    · simp only [fde, hl]
      exact Loop.put_fdes_of_ne _ _ hj
    · dsimp only
      split
      · exact Function.update_of_ne hj ..
      · rfl
    · simp [fde, hl]
    · simp [fde, hl]
    · simp [fde, hl]
    · simp only [fde, hl, Loop.put_fdes_self] at hp ⊢
      rw [hp]
      split
      · exact h.events k hp
      · exact Events.union_ne_empty (by decide)
    · simp only [wanted, fde, hl, Loop.put_fdes_self]
      by_cases hr : rcount = 0
      · cases hp : (e.loop.fdes k).pending with
        | true =>
            simp only [hr, ne_eq, not_true_eq_false, if_false, if_true, and_self,
              Function.update_self]
            refine Events.union_subset ((h.subset k).trans ?_) (Events.subset_union_right ..)
            exact Events.union_subset_union_right (Events.keepIf_mono fun _ => rfl)
        | false =>
            simp only [hr, ne_eq, not_true_eq_false, if_false, Bool.false_eq_true]
            exact Events.empty_subset _
      · simp only [hr, ne_eq, not_false_eq_true, if_true, false_and, if_false]
        exact h.subset k

/-- The callback from the pending list is made, with the events of its record. -/
theorem dispatch_eq (h : e.WF) {ev : Option Events} (hs : e.dispatch = some (k, ev, e')) :
    ∃ rest, e.loop.pending = k :: rest ∧ (e.fde k).pending = true ∧
      ev = some (e.fde k).events ∧
      e' = { e with
        loop := (({ e.loop with pending := rest } : Loop ι).fdeventTake k).2
        forced := Function.update e.forced k false } := by
  unfold EventLoop.dispatch Loop.fdeventPlistDequeue at hs
  cases hl : e.loop.pending with
  | nil =>
      rw [hl] at hs
      cases hs
  | cons k' rest =>
      rw [hl] at hs
      have hp : (e.fde k').pending = true := (h.loop.mem k').mp (by simp [hl])
      simp only [fdeventCallFdfunc, fde] at hs hp
      rw [if_pos hp] at hs
      simp only [Option.some.injEq, Prod.mk.injEq] at hs
      obtain ⟨rfl, rfl, rfl⟩ := hs
      exact ⟨rest, rfl, hp, rfl, rfl⟩

/-- The next callback. -/
theorem dispatch (h : e.WF) {ev : Option Events} (hs : e.dispatch = some (k, ev, e')) :
    e'.WF := by
  obtain ⟨rest, hl, -, -, rfl⟩ := h.dispatch_eq hs
  have hself : (({ e.loop with pending := rest } : Loop ι).fdeventTake k).2.fdes k =
      { e.loop.fdes k with events := {}, pending := false } := by
    simp [Loop.fdeventTake]
  refine h.change k (h.loop.take hl) rfl rfl (fun j hj => ⟨?_, ?_⟩) ⟨?_, ?_, ?_⟩
    (fun hp => ?_) ?_
  · exact Loop.put_fdes_of_ne _ _ hj
  · exact Function.update_of_ne hj ..
  · simp [fde, hself]
  · simp [fde, hself]
  · simp [fde, hself]
  · simp [fde, hself] at hp
  · simp only [fde, hself]
    exact Events.empty_subset _

end WF

variable [DecidableEq ι]

/-- **Every action** that does not change the mask of a pending record keeps the invariant. -/
theorem WF.step (h : e.WF) {a : LoopAct ι} (ha : ¬Retargets e a) (hs : e.step a = some e') :
    e'.WF := by
  cases a with
  | install k fd =>
      simp only [EventLoop.step] at hs
      split at hs
      · cases hs
      · next hfresh =>
        obtain rfl := Option.some.inj hs
        rw [not_or] at hfresh
        exact h.install (by simpa using hfresh.1) (by simpa using hfresh.2)
  | remove k => exact h.remove hs
  | set k ev =>
      obtain rfl := Option.some.inj hs
      exact h.set fun hp => by simpa [Retargets, hp] using ha
  | add k ev =>
      obtain rfl := Option.some.inj hs
      exact h.set fun hp => by simpa [Retargets, hp] using ha
  | del k ev =>
      obtain rfl := Option.some.inj hs
      exact h.set fun hp => by simpa [Retargets, hp] using ha
  | subprocExit fd rcount =>
      obtain rfl := Option.some.inj hs
      exact h.subprocExit fd rcount
  | process r =>
      cases r with
      | ready reported =>
          simp only [EventLoop.step] at hs
          split at hs
          · next hsub =>
            refine h.scan (fun fd hfd => ?_) hs
            exact (hsub fd (List.mem_range.mp hfd)).trans (Events.subset_union_left ..)
          · cases hs
      | failed =>
          obtain rfl := Option.some.inj hs
          exact h
      | checked bad =>
          refine h.scan (fun fd _ => ?_) hs
          unfold fdeventFdCheck
          split
          · exact Events.subset_union_right ..
          · exact Events.empty_subset _
  | dispatch =>
      obtain ⟨⟨k, ev, e₁⟩, hd, rfl⟩ := Option.map_eq_some_iff.mp hs
      exact h.dispatch hd

/-- A callback from the pending list gets the events of its record, which are wanted. -/
theorem WF.respects (h : e.WF) : RespectsInterest e := by
  intro k ev e' hs
  obtain ⟨rest, -, hp, hev, -⟩ := h.dispatch_eq hs
  obtain rfl := Option.some.inj hev
  exact ⟨h.events k hp, h.subset k⟩

/-- **Dispatch respects interest.** In every run in which no mask of a pending record is
changed, every callback from the pending list gets events, all of them events its record is
interested in or a read faked for it. -/
theorem dispatch_respects_interest (as : List (LoopAct ι))
    (has : AlongSteps step (fun e a => ¬Retargets e a) init as) :
    Along step RespectsInterest init as :=
  along_of_invariant (fun _ => WF.respects) (fun _ _ _ h ha hs => h.step ha hs) WF.init has

/-- One record, its descriptor `5` watched for writing: `select` finds it ready, and it gets
the callback. -/
theorem dispatch_respects_interest_write :
    Along step RespectsInterest (init : EventLoop Unit)
        [.install () 5, .add () .onlyWrite,
          .process (.ready fun fd => if fd = 5 then .onlyWrite else {}), .dispatch] ∧
      ∃ e e' : EventLoop Unit,
        [.install () 5, .add () .onlyWrite,
            .process (.ready fun fd => if fd = 5 then .onlyWrite else {})].foldlM step init =
          some e ∧
        e.dispatch = some ((), some .onlyWrite, e') := by
  constructor
  · refine dispatch_respects_interest _ ?_
    intro e₁ h₁
    obtain rfl := Option.some.inj h₁
    refine ⟨id, fun _ _ => ⟨fun h => ?_, fun _ _ => ⟨id, fun _ _ => ⟨id, trivial⟩⟩⟩⟩
    cases h.1
  · exact ⟨_, _, rfl, rfl⟩

/-- A record that is watched for writing only gets a read when its descriptor turns out to be
bad. -/
theorem bad_descriptor_reads :
    ∃ e e' : EventLoop Unit,
      [.install () 5, .add () .onlyWrite, .process (.checked fun fd => fd == 5)].foldlM
        step init = some e ∧
        e.dispatch = some ((), some .onlyRead, e') ∧ (e.fde ()).interest = .onlyWrite ∧
        ¬Events.Subset .onlyRead (e.fde ()).interest :=
  ⟨_, _, rfl, rfl, rfl, by decide⟩

end EventLoop

end Adbd
