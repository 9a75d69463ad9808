import Adbd.Fdevent
import Adbd.FdeTable
import Adbd.ListHead

/-!
# The Tables of the Event Loop

`fdevent.c` keeps what it knows in several places: the flags of every record, the table that
finds a record by its descriptor, the three sets for `select`, the number of descriptors that
`select` looks at, and the list of the records with events, which runs through the records
themselves. Here are the functions on all of them, with the places in which the process ends,
and with the bounds of the sets.

A pointer has four bytes, so the table is one of `FdeTable` in which every new slot is null.

## Main definitions

* `Fde`, `Tables`: the records and what is kept about them.
* `fdeventInstall`, `fdeventRemove`, `fdeventSet`, `fdeventAdd`, `fdeventDel`,
  `fdeventProcess`, `dispatch`, `fdeventSubprocEventFunc`: the functions.
* `TableAct`, `Tables.step`: what the loop and its callbacks do.

## Main results

* `fdeventRegister_slots`: the table is that of `FdeTable`.
-/

namespace Adbd

open ListHead

/-- The low byte of a mask, `FDE_EVENTMASK`. -/
abbrev EventMask := BitVec 8

/-- The bits `FDE_READ`, `FDE_WRITE` and `FDE_ERROR` of a mask. -/
def EventMask.toEvents (m : EventMask) : Events :=
  { read := m.getLsbD 0, write := m.getLsbD 1, error := m.getLsbD 2 }

/-- The mask of some events. -/
def EventMask.ofEvents (ev : Events) : EventMask :=
  (if ev.read then 0x01 else 0) ||| (if ev.write then 0x02 else 0) |||
    (if ev.error then 0x04 else 0)

/-- `struct fdevent`, without its links and callback, `force_eof` and `FDE_CREATED`. -/
structure Fde where
  fd : Nat := 0
  /-- `state & FDE_EVENTMASK` -/
  mask : EventMask := 0
  /-- `FDE_ACTIVE` -/
  active : Bool := false
  /-- `FDE_PENDING` -/
  pending : Bool := false
  events : EventMask := 0
deriving DecidableEq, Repr

/-- What a link can point to besides a record: `list_pending`, or nothing. -/
inductive Anchor
  | listPending
  | null
deriving DecidableEq, Repr

/-- The records, their links, `fd_table` and `fd_table_max`, the sets `read_fds`, `write_fds`
and `error_fds` by descriptor, and `select_n`. -/
structure Tables (ι : Type) where
  fdes : ι → Fde := fun _ => {}
  links : Links (Node Anchor ι) := ⟨fun _ => .head .listPending, fun _ => .head .listPending⟩
  fdTable : Nat → Option ι := fun _ => none
  fdTableMax : Nat := 0
  fds : Nat → Events := fun _ => {}
  selectN : Nat := 0

/-- Where the process ends: in `fdevent_register`, in another `FATAL`, or with an access
outside of a table or a set. -/
inductive Fatal
  | refused (r : Refusal)
  | missingFde (fd : Nat)
  | fdOutOfRange (fd : Nat)
  | outOfSync (fd : Nat)
  | outOfBounds
deriving DecidableEq, Repr

/-- What `select` returns: the number of events and the sets, or an error. -/
inductive SelectOutcome
  | ready (n : Nat) (fds : Nat → Events)
  | eintr
  | ebadf
  | error

namespace Tables

variable {ι : Type} [DecidableEq ι]

/-- Replace the record of `k`. -/
def put (t : Tables ι) (k : ι) (f : Fde) : Tables ι :=
  { t with fdes := Function.update t.fdes k f }

/-! ### The pending list -/

/-- `fdevent_plist_enqueue`. -/
def fdeventPlistEnqueue (t : Tables ι) (k : ι) : Tables ι :=
  { t with links := t.links.listAddTail (.elem k) (.head .listPending) }

/-- The links of a record are null. -/
def clearNode (t : Tables ι) (k : ι) : Tables ι :=
  { t with links :=
      { next := Function.update t.links.next (.elem k) (.head .null)
        prev := Function.update t.links.prev (.elem k) (.head .null) } }

/-- `fdevent_plist_remove`. -/
def fdeventPlistRemove (t : Tables ι) (k : ι) : Tables ι :=
  { t with links := t.links.listDel (.elem k) }.clearNode k

/-- `fdevent_plist_dequeue`, for the node at the front. -/
def fdeventPlistDequeue (t : Tables ι) (k : ι) : Tables ι :=
  let next := t.links.next (.elem k)
  { t with links :=
      { next := Function.update t.links.next (.head .listPending) next
        prev := Function.update t.links.prev next (.head .listPending) } }.clearNode k

/-! ### The table and the sets -/

/-- `FD_SET` for the sets of which a mask has the bit, `FD_CLR` for the others. -/
def fdPut (t : Tables ι) (fd : Nat) (ev : Events) : Except Fatal (Tables ι) :=
  if fd < FD_SETSIZE then .ok { t with fds := Function.update t.fds fd ev }
  else .error .outOfBounds

/-- `fdevent_connect`. -/
def fdeventConnect (t : Tables ι) (k : ι) : Tables ι :=
  if t.selectN ≤ (t.fdes k).fd then { t with selectN := (t.fdes k).fd + 1 } else t

/-- The largest registered descriptor below `n`, or zero: the loop of `fdevent_disconnect`. -/
def lastRegistered (t : Tables ι) (n : Nat) : Nat :=
  (List.range n).foldl (fun m i => if (t.fdTable i).isSome then i else m) 0

/-- `fdevent_disconnect`. -/
def fdeventDisconnect (t : Tables ι) (k : ι) : Except Fatal (Tables ι) := do
  let t ← t.fdPut (t.fdes k).fd {}
  if t.fdTableMax < t.selectN then .error .outOfBounds
  else .ok { t with selectN := t.lastRegistered t.selectN + 1 }

/-- `fdevent_update`. -/
def fdeventUpdate (t : Tables ι) (k : ι) (events : EventMask) : Except Fatal (Tables ι) := do
  let t ← t.fdPut (t.fdes k).fd events.toEvents
  .ok (t.put k { t.fdes k with mask := events })

/-- `fdevent_register`, where `memset` clears all the slots that `realloc` adds. -/
def fdeventRegister (t : Tables ι) (k : ι) (fd : Int) (room : Bool) :
    Except Fatal (Tables ι) :=
  if fd < 0 then .error (.refused (.negative fd))
  else if t.fdTableMax ≤ fd.toNat then
    if 32000 < fd.toNat then .error (.refused (.huge fd.toNat))
    else
      match growLoop fd.toNat (fd.toNat + 1) (startMax t.fdTableMax) with
      | none => .error (.refused .growing)
      | some max =>
          if room then
            let grown := fun i => if i < t.fdTableMax then t.fdTable i else none
            .ok { t with
              fdTable := Function.update grown fd.toNat (some k)
              fdTableMax := max }
          else .error (.refused (.noMemory max))
  else .ok { t with fdTable := Function.update t.fdTable fd.toNat (some k) }

/-- `fdevent_unregister`. The descriptor is closed, or not. -/
def fdeventUnregister (t : Tables ι) (k : ι) : Except Fatal (Tables ι) :=
  let fd := (t.fdes k).fd
  if t.fdTableMax ≤ fd then .error (.fdOutOfRange fd)
  else if t.fdTable fd ≠ some k then .error (.outOfSync fd)
  else .ok { t with fdTable := Function.update t.fdTable fd none }

/-! ### The interface -/

/-- `fdevent_install`. The record is zeroed first. -/
def fdeventInstall (t : Tables ι) (k : ι) (fd : Int) (room : Bool) :
    Except Fatal (Tables ι) := do
  let t := (t.clearNode k).put k { fd := fd.toNat, active := true }
  let t ← t.fdeventRegister k fd room
  .ok (t.fdeventConnect k)

/-- `fdevent_remove`. -/
def fdeventRemove (t : Tables ι) (k : ι) : Except Fatal (Tables ι) := do
  let t := if (t.fdes k).pending then t.fdeventPlistRemove k else t
  let t ← if (t.fdes k).active then do
      let t ← t.fdeventDisconnect k
      t.fdeventUnregister k
    else .ok t
  .ok (t.put k { fd := (t.fdes k).fd })

/-- The second half of `fdevent_set`: the mask is stored, and a pending record keeps the other
events, or is unlinked. -/
def storeMask (t : Tables ι) (k : ι) (events : EventMask) : Tables ι :=
  let f := { t.fdes k with mask := events }
  if f.pending then
    let left := f.events &&& ~~~events
    if left = 0 then (t.fdeventPlistRemove k).put k { f with events := 0, pending := false }
    else t.put k { f with events := left }
  else t.put k f

/-- `fdevent_set`, for a mask of the low byte. -/
def fdeventSet (t : Tables ι) (k : ι) (events : EventMask) : Except Fatal (Tables ι) :=
  if (t.fdes k).mask = events then .ok t
  else if (t.fdes k).active then do
    let t ← t.fdeventUpdate k events
    .ok (t.storeMask k events)
  else .ok (t.storeMask k events)

/-- `fdevent_add`. -/
def fdeventAdd (t : Tables ι) (k : ι) (events : EventMask) : Except Fatal (Tables ι) :=
  t.fdeventSet k ((t.fdes k).mask ||| events)

/-- `fdevent_del`. -/
def fdeventDel (t : Tables ι) (k : ι) (events : EventMask) : Except Fatal (Tables ι) :=
  t.fdeventSet k ((t.fdes k).mask &&& ~~~events)

/-! ### The loop -/

/-- Events for a record, which is linked unless it is pending. -/
def notify (t : Tables ι) (k : ι) (events : EventMask) : Tables ι :=
  let f := { t.fdes k with events := (t.fdes k).events ||| events }
  if f.pending then t.put k f
  else (t.put k { f with pending := true }).fdeventPlistEnqueue k

/-- `fdevent_fd_check`: a read is faked for the registered descriptors that are bad. Their
number is returned. -/
def fdeventFdCheck (t : Tables ι) (bad : Nat → Bool) (fds : Nat → Events) :
    Except Fatal (Nat × (Nat → Events)) :=
  if t.fdTableMax < t.selectN then .error .outOfBounds
  else
    let hit := fun i => decide (i < t.selectN) && (t.fdTable i).isSome && bad i
    .ok ((List.range t.selectN).countP hit,
      fun i => if hit i then { fds i with read := true } else fds i)

/-- The number of events of a descriptor. -/
def countEvents (ev : Events) : Nat := ev.read.toNat + ev.write.toNat + ev.error.toNat

/-- The scan of `fdevent_process` over `m` descriptors from `i` on, with `n` events left. -/
def scan (fds : Nat → Events) : Nat → Nat → Int → Tables ι → Except Fatal (Tables ι)
  | 0, _, _, t => .ok t
  | m + 1, i, n, t =>
      if n ≤ 0 then .ok t
      else if fds i = {} then scan fds m (i + 1) n t
      else if t.fdTableMax ≤ i then .error .outOfBounds
      else
        match t.fdTable i with
        | none => .error (.missingFde i)
        | some k =>
            scan fds m (i + 1) (n - countEvents (fds i)) (t.notify k (.ofEvents (fds i)))

/-- `fdevent_process`, with the descriptors that are bad. The sets have room for `FD_SETSIZE`
descriptors, whatever `select` is told. -/
def fdeventProcess (t : Tables ι) (r : SelectOutcome) (bad : Nat → Bool) :
    Except Fatal (Tables ι) :=
  if FD_SETSIZE < t.selectN then .error .outOfBounds
  else
    match r with
    | .eintr | .error => .ok t
    | .ebadf => do
        let (n, fds) ← t.fdeventFdCheck bad fun _ => {}
        scan fds t.selectN 0 n t
    | .ready 0 fds => do
        let (n, fds) ← t.fdeventFdCheck bad fds
        scan fds t.selectN 0 n t
    | .ready (n + 1) fds => scan fds t.selectN 0 (n + 1) t

/-- `fdevent_call_fdfunc`, up to the callback. -/
def fdeventCallFdfunc (t : Tables ι) (k : ι) : Tables ι :=
  t.put k { t.fdes k with events := 0, pending := false }

/-- The next callback of `fdevent_loop`. -/
def dispatch (t : Tables ι) : Except Fatal (Tables ι) :=
  match t.links.next (.head .listPending) with
  | .head .listPending => .ok t
  | .head .null => .error .outOfBounds
  | .elem k => .ok ((t.fdeventPlistDequeue k).fdeventCallFdfunc k)

/-- `fdevent_subproc_event_func`, for a notification about a descriptor with `rcount` bytes
left to read. A record that is not pending is called at once, not from the pending list. -/
def fdeventSubprocEventFunc (t : Tables ι) (fd rcount : Nat) : Tables ι :=
  if t.fdTableMax ≤ fd then t
  else
    match t.fdTable fd with
    | none => t
    | some k =>
        if (t.fdes k).fd ≠ fd ∨ rcount ≠ 0 then t
        else
          let f := { t.fdes k with events := (t.fdes k).events ||| 0x01 }
          if f.pending then t.put k f
          else (t.put k { f with pending := true }).fdeventCallFdfunc k

end Tables

/-- What the loop and its callbacks do. -/
inductive TableAct (ι : Type)
  | install (k : ι) (fd : Int) (room : Bool)
  | remove (k : ι)
  | set (k : ι) (events : EventMask)
  | add (k : ι) (events : EventMask)
  | del (k : ι) (events : EventMask)
  | process (r : SelectOutcome) (bad : Nat → Bool)
  | dispatch
  | subprocExit (fd rcount : Nat)

namespace Tables

variable {ι : Type} [DecidableEq ι]

/-- A descriptor has a record in the table. -/
def registered (t : Tables ι) (fd : Int) : Bool :=
  decide (0 ≤ fd ∧ fd.toNat < t.fdTableMax) && (t.fdTable fd.toNat).isSome

/-- One action, after which the process may have ended. Only a record that is not linked is
installed, on a descriptor without a record, and only an installed one is removed; `select`
returns descriptors of the sets it was given only. -/
def step : Except Fatal (Tables ι) → TableAct ι → Option (Except Fatal (Tables ι))
  | .error _, _ => none
  | .ok t, .install k fd room =>
      if (t.fdes k).pending ∨ t.registered fd then none
      else some (t.fdeventInstall k fd room)
  | .ok t, .remove k => if (t.fdes k).active then some (t.fdeventRemove k) else none
  | .ok t, .set k events => some (t.fdeventSet k events)
  | .ok t, .add k events => some (t.fdeventAdd k events)
  | .ok t, .del k events => some (t.fdeventDel k events)
  | .ok t, .process (.ready n fds) bad =>
      if ∀ fd < t.selectN, (fds fd).Subset (t.fds fd) then
        some (t.fdeventProcess (.ready n fds) bad)
      else none
  | .ok t, .process r bad => some (t.fdeventProcess r bad)
  | .ok t, .dispatch => some t.dispatch
  | .ok t, .subprocExit fd rcount => some (.ok (t.fdeventSubprocEventFunc fd rcount))

/-! ### The memory of the table -/

/-- The table has the addresses of the records in its slots, and is null elsewhere. -/
structure Slots (addr : ι → Ptr .four) (T : FdeTable) (t : Tables ι) : Prop where
  max : T.max = t.fdTableMax
  slot : ∀ fd < T.max, T.slot .four fd = (t.fdTable fd).elim (fun _ => 0) addr

omit [DecidableEq ι] in
/-- **`fdevent_register` on the memory of the table** does the same, where pointers have four
bytes: it is refused for the same reason, or leaves the same slots, whatever `realloc` adds. -/
theorem fdeventRegister_slots {addr : ι → Ptr .four} {T : FdeTable} {t : Tables ι}
    (h : Slots addr T t) (k : ι) (fd : Int) (fresh : Nat → UInt32) (room : Bool) :
    match T.register .four fd (addr k) fresh room, t.fdeventRegister k fd room with
    | .ok T', .ok t' => Slots addr T' t'
    | .error r, .error e => e = .refused r
    | _, _ => False := by
  obtain ⟨max, hmax, -, hle⟩ := growLoop_startMax fd.toNat t.fdTableMax
  by_cases hneg : fd < 0
  · simp [FdeTable.register, fdeventRegister, hneg]
  by_cases hgrow : t.fdTableMax ≤ fd.toNat
  · by_cases hhuge : 32000 < fd.toNat
    · simp [FdeTable.register, fdeventRegister, h.max, hneg, hgrow, hhuge]
    · cases room with
      | false => simp [FdeTable.register, fdeventRegister, h.max, hneg, hgrow, hhuge, hmax]
      | true =>
          have htable : tableMax fd.toNat t.fdTableMax = max := by
            rw [tableMax, if_pos hgrow, hmax]
            rfl
          cases hreg : T.register .four fd (addr k) fresh true with
          | error r => simp [FdeTable.register, h.max, hneg, hgrow, hhuge, hmax] at hreg
          | ok T' =>
              have hspec := FdeTable.register_spec hreg
              have hmax' := hspec.max
              rw [h.max, htable] at hmax'
              simp only [fdeventRegister, hneg, hgrow, hhuge, hmax, if_true, if_false]
              refine ⟨hmax', fun i hi => ?_⟩
              dsimp only
              by_cases hself : i = fd.toNat
              · rw [hself, Function.update_self, hspec.slot]
                rfl
              · rw [Function.update_of_ne hself]
                split
                · next hold =>
                  rw [hspec.old i (h.max ▸ hold) hself]
                  exact h.slot i (h.max ▸ hold)
                · next hnew =>
                  funext j
                  have hj : (j : Nat) < 1 := j.isLt
                  rw [hspec.new i (by rw [h.max]; omega) hi hself]
                  refine if_pos ?_
                  simp only [PtrWidth.ints, Nat.one_mul]
                  rw [h.max]
                  omega
  · have htable : tableMax fd.toNat t.fdTableMax = t.fdTableMax := if_neg hgrow
    cases hreg : T.register .four fd (addr k) fresh room with
    | error r => simp [FdeTable.register, h.max, hneg, hgrow] at hreg
    | ok T' =>
        have hspec := FdeTable.register_spec hreg
        have hmax' := hspec.max
        rw [h.max, htable] at hmax'
        simp only [fdeventRegister, hneg, hgrow, if_false]
        refine ⟨hmax', fun i hi => ?_⟩
        dsimp only
        have hold : i < T.max := by rwa [h.max, ← hmax']
        by_cases hself : i = fd.toNat
        · rw [hself, Function.update_self, hspec.slot]
          rfl
        · rw [Function.update_of_ne hself, hspec.old i hold hself]
          exact h.slot i hold

end Tables

end Adbd
