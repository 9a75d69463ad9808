import Adbd.HandlePacket

/-!
# The Daemon as a Transition System

The main loop and the two I/O threads of every transport, interleaved step by step. A
callback of the main loop is one step, as is one turn of the loop of an I/O thread; the
way a thread leaves (`kick_transport`, `transport_unref`) is split at the points where
another thread can come between, with every section under `transport_lock` one step.

The choices of the environment are part of the actions: what `select` reports, what the
operating system answers during a callback, what a remote sends, which thread runs.

The pipes of a transport are objects of its own. That numbers of closed descriptors are given
out again is left to `Adbd.Descriptors`, but for what a removal closes so (`removeTransport`).

## Main definitions

* `Life`: the part of `struct atransport` the threads and the registration pipe manage,
  and where the two threads of the transport stand.
* `System`, `Action`, `step`: the transition system.
* `Reachable`: the states reached from `System.init`.
-/

namespace Adbd

open Program

/-- Where `output_thread` stands: posting `SYNC(1)`, in its loop, posting `SYNC(0)`, in
`kick_transport` before its first test, before its locked section and before calling
`t->kick`, before `transport_unref`, finished. -/
inductive OutPc
  | sync
  | pump
  | offline
  | kickTest
  | kickLock
  | kickCall
  | unref
  | done
deriving DecidableEq, Repr

/-- Where `input_thread` stands. -/
inductive InPc
  | reading
  | closeAll
  | kickTest
  | kickLock
  | kickCall
  | unref
  | done
deriving DecidableEq, Repr

/-- The life of a transport. `started` is set when the registration handler has started
its threads, `freed` when the removal handler has freed it. `kicks`, `closes` and `removes`
count the calls of `t->kick` and `t->close` and the remove messages posted, and `refs`
lists the values `ref_count` has had, newest first. -/
structure Life where
  type : TransportType
  started : Bool := false
  freed : Bool := false
  refCount : Int := 0
  kicked : Bool := false
  out : OutPc := .sync
  inp : InPc := .reading
  syncToken : UInt32 := 1
  active : Bool := false
  toRemote : List APacket := []
  refs : List Int := []
  kicks : Nat := 0
  closes : Nat := 0
  removes : Nat := 0
deriving DecidableEq, Repr

/-- `struct tmsg`: a transport, and whether it is to be registered or removed. -/
structure TMsg where
  transport : TId
  register : Bool
deriving DecidableEq, Repr

/-- The whole daemon: the memory of the main loop, the life of every transport, and the
messages in the registration pipe, oldest first. -/
structure System where
  core : Core
  life : TId → Option Life
  nextT : Nat
  regPipe : List TMsg

/-- The daemon when `fdevent_loop` starts. -/
def System.init : System where
  core := Core.init
  life := fun _ => none
  nextT := 0
  regPipe := []

/-- What happens next. -/
inductive Action
  /-- another thread registers a transport -/
  | register (type : TransportType)
  /-- `select` returns these ready descriptors -/
  | select (ready : List (FdeId × Events))
  /-- the main loop delivers the events of the first pending record -/
  | dispatch (io : Io)
  /-- the output thread of a transport runs; `read_from_remote` yields a packet or fails,
  and the write to the pipe may fail -/
  | output (t : TId) (r : Option (AMessage × List UInt8)) (fails : Bool)
  /-- the input thread of a transport runs; the read from the pipe may fail -/
  | input (t : TId) (fails : Bool)

/-- Why a step does not lead to a state: the daemon stops with a fault, or the action is
not possible now. -/
inductive Stop
  | fault (f : Fault)
  | disabled
deriving DecidableEq, Repr

/-- Run a handler on the memory of the system. -/
def System.run (m : M Unit) (s : System) : Except Stop System :=
  match m s.core with
  | .ok (_, c) => .ok { s with core := c }
  | .error f => .error (.fault f)

/-- Overwrite the life of a transport. -/
def System.setLife (s : System) (t : TId) (l : Life) : System :=
  { s with life := Function.update s.life t (some l) }

/-! ### The end of a thread -/

/-- The locked section of `kick_transport`: whether this caller is the one to kick. -/
def Life.kickLocked (l : Life) : Bool × Life :=
  if l.kicked then (false, l) else (true, { l with kicked := true })

/-- `t->kick(t)`. -/
def Life.kick (l : Life) : Life := { l with kicks := l.kicks + 1 }

/-- `transport_unref_locked`: whether the reference dropped was the last one. -/
def Life.unrefLocked (l : Life) : Bool × Life :=
  let l := { l with refCount := l.refCount - 1, refs := (l.refCount - 1) :: l.refs }
  if l.refCount = 0 then
    let l := if l.kicked then l else { l with kicked := true, kicks := l.kicks + 1 }
    (true, { l with closes := l.closes + 1, removes := l.removes + 1 })
  else (false, l)

/-- `transport_unref`: when the last reference goes, `t->close` (which for a TCP transport
closes its pipes) and the remove message. -/
def System.transportUnref (s : System) (t : TId) (l : Life) : System :=
  match l.unrefLocked with
  | (false, l) => s.setLife t l
  | (true, l) =>
      let core :=
        match l.type, s.core.transports t with
        | .tcp, some T => s.core.putTransport t (some { T with pipesOpen := false })
        | _, _ => s.core
      { s.setLife t l with core := core, regPipe := s.regPipe ++ [⟨t, false⟩] }

/-! ### The I/O threads -/

/-- Write a packet into the pipe to the main loop. -/
def postToMain (t : TId) (m : AMessage) (data : List UInt8) : M Unit := do
  let p ← getApacket
  modTransport t fun T =>
    { T with ioToMain := T.ioToMain ++ [{ p with msg := m, data := data }] }

/-- The message of a `SYNC` packet. -/
def syncMsg (arg0 arg1 : UInt32) : AMessage :=
  { command := A_SYNC, arg0 := arg0, arg1 := arg1, magic := A_SYNC ^^^ 0xffffffff }

/-- What `check_header` and `check_data` accept, with a buffer that holds the payload. -/
def Accepted (m : AMessage) (data : List UInt8) : Prop :=
  m.magic = m.command ^^^ 0xffffffff ∧ m.dataLength.toNat ≤ MAX_PAYLOAD ∧
    m.dataLength.toNat ≤ data.length ∧
    m.dataCheck = dataSum (data.take m.dataLength.toNat)

instance (m : AMessage) (data : List UInt8) : Decidable (Accepted m data) := by
  unfold Accepted; infer_instance

/-- One step of `output_thread`. -/
def outputThread (s : System) (t : TId) (l : Life) (r : Option (AMessage × List UInt8))
    (fails : Bool) : Except Stop System :=
  match l.out with
  | .sync =>
      let l := { l with syncToken := l.syncToken + 1 }
      if fails then .ok (s.setLife t { l with out := .kickTest })
      else (s.setLife t { l with out := .pump }).run (postToMain t (syncMsg 1 l.syncToken) [])
  | .pump =>
      match r with
      | none => .ok (s.setLife t { l with out := .offline })
      | some (m, data) =>
          if Accepted m data then
            if fails then .ok (s.setLife t { l with out := .kickTest })
            else s.run (postToMain t m data)
          else .ok (s.setLife t { l with out := .offline })
  | .offline =>
      if fails then .ok (s.setLife t { l with out := .kickTest })
      else (s.setLife t { l with out := .kickTest }).run (postToMain t (syncMsg 0 0) [])
  | .kickTest => .ok (s.setLife t { l with out := if l.kicked then .unref else .kickLock })
  | .kickLock =>
      match l.kickLocked with
      | (mine, l) => .ok (s.setLife t { l with out := if mine then .kickCall else .unref })
  | .kickCall => .ok (s.setLife t { l.kick with out := .unref })
  | .unref => .ok (s.transportUnref t { l with out := .done })
  | .done => .error .disabled

/-- One turn of the loop of `input_thread` on the packet `p`: the thread's new state and
what is handed to `write_to_remote`. -/
def inputPacket (l : Life) (p : APacket) : Life :=
  if p.msg.command = A_SYNC then
    if p.msg.arg0 = 0 then { l with inp := .closeAll }
    else if p.msg.arg1 = l.syncToken then { l with active := true }
    else l
  else if l.active then { l with toRemote := l.toRemote ++ [p] }
  else l

/-- Take the oldest packet out of the pipe to the input thread and free it. -/
def takeFromMain (t : TId) : M Unit := do
  let T ← getTransport t
  match T.mainToIo with
  | [] => pure ()
  | p :: rest => do
      modTransport t fun T => { T with mainToIo := rest }
      putApacket p

/-- One step of `input_thread`. -/
def inputThread (s : System) (t : TId) (l : Life) (fails : Bool) : Except Stop System :=
  match l.inp with
  | .reading =>
      if fails then .ok (s.setLife t { l with inp := .closeAll })
      else
        match s.core.transports t with
        | none => .error (.fault (.staleTransport t))
        | some T =>
            match T.mainToIo with
            | [] => .error .disabled
            | p :: _ => (s.setLife t (inputPacket l p)).run (takeFromMain t)
  | .closeAll => (s.setLife t { l with inp := .kickTest }).run (closeAllSockets t)
  | .kickTest => .ok (s.setLife t { l with inp := if l.kicked then .unref else .kickLock })
  | .kickLock =>
      match l.kickLocked with
      | (mine, l) => .ok (s.setLife t { l with inp := if mine then .kickCall else .unref })
  | .kickCall => .ok (s.setLife t { l.kick with inp := .unref })
  | .unref => .ok (s.transportUnref t { l with inp := .done })
  | .done => .error .disabled

/-! ### The main loop -/

/-- The registration branch of `transport_registration_func`: pipes, the record of the
event loop, the threads, and the entry of `transport_list`. -/
def registerTransport (t : TId) (type : TransportType) : M Unit := do
  modify fun c => c.putTransport t (some { type := type })
  modLoop fun l => (l.fdeventInstall (.transport t) 0).fdeventSet
    (.transport t) Events.onlyRead
  modify fun c => { c with transportList := c.transportList ++ [t] }

/-- The removal branch of `transport_registration_func`. The descriptors of a TCP transport
are closed before; its `adb_close` calls then close what has got their numbers since. An
`fd_write` closed so shows in the output thread, whose writes fail. -/
def removeTransport (t : TId) : M Unit := do
  let io := (← get).io
  closeAllSockets t
  modLoop (·.fdeventRemove (.transport t))
  modify fun c => { c with cut := c.cut ++ io.reused }
  modify fun c => { c with transportList := c.transportList.erase t }
  runTransportDisconnects t
  modify fun c => c.putTransport t none

/-- `transport_registration_func`. -/
def transportRegistrationFunc (s : System) (ev : Events) : Except Stop System :=
  if ev.read then
    match s.regPipe with
    | [] => .error (.fault .fatal)
    | m :: rest =>
        match s.life m.transport with
        | none => .error (.fault (.staleTransport m.transport))
        | some l =>
            let s := { s with regPipe := rest }
            if m.register then
              (s.setLife m.transport
                { l with started := true, refCount := 2, refs := [2] }).run
                (registerTransport m.transport l.type)
            else
              (s.setLife m.transport { l with freed := true }).run
                (removeTransport m.transport)
  else .ok s

/-- The callback of a record. -/
def callback (s : System) (k : FdeId) (ev : Events) : Except Stop System :=
  match k with
  | .sock a => s.run (localSocketEventFunc a ev)
  | .transport t => s.run (transportSocketEvents t ev)
  | .registration => transportRegistrationFunc s ev
  | .subproc => s.run (fdeventSubprocEventFunc ev)
  | .ssListener => s.run (ssListenerEventFunc ev)
  | .jdwp => s.run (jdwpProcessEvent ev)

/-- What `select` may report for a record: events it is watched for or, after `EBADF`, a
faked `FDE_READ`; the registration pipe is readable only while it holds a message. -/
def MayReport (s : System) (r : FdeId × Events) : Prop :=
  (s.core.loop.fdes r.1).active = true ∧
    (r.2.Subset (s.core.loop.fdes r.1).interest ∨ r.2 = Events.onlyRead) ∧
    (r.1 = .registration → r.2.read = true → s.regPipe ≠ [])

instance (s : System) (r : FdeId × Events) : Decidable (MayReport s r) := by
  unfold MayReport; infer_instance

/-- One step of the daemon. -/
def step (s : System) : Action → Except Stop System
  | .register type =>
      .ok { s.setLife s.nextT { type := type } with
            nextT := s.nextT + 1, regPipe := s.regPipe ++ [⟨s.nextT, true⟩] }
  | .select ready =>
      if s.core.loop.pending = [] ∧ ∀ r ∈ ready, MayReport s r then
        .ok { s with core := { s.core with loop := s.core.loop.fdeventProcess ready } }
      else .error .disabled
  | .dispatch io =>
      match s.core.loop.fdeventPlistDequeue with
      | none => .error .disabled
      | some (k, loop) =>
          let (ev, loop) := loop.fdeventTake k
          callback { s with core := { s.core with loop := loop, io := io } } k ev
  | .output t r fails =>
      match s.life t with
      | some l => if l.started then outputThread s t l r fails else .error .disabled
      | none => .error .disabled
  | .input t fails =>
      match s.life t with
      | some l => if l.started then inputThread s t l fails else .error .disabled
      | none => .error .disabled

/-- A round of `select` that is possible. -/
theorem step_select {s s' : System} {ready : List (FdeId × Events)}
    (h : step s (.select ready) = .ok s') :
    s' = { s with core := { s.core with loop := s.core.loop.fdeventProcess ready } } := by
  rw [step] at h
  split at h
  · exact (Except.ok.inj h).symm
  · cases h

/-- Only a thread that was started moves. -/
theorem step_outputThread {s s' : System} {t : TId} {r : Option (AMessage × List UInt8)}
    {fails : Bool} (h : step s (.output t r fails) = .ok s') :
    ∃ l, s.life t = some l ∧ l.started = true ∧ outputThread s t l r fails = .ok s' := by
  rw [step] at h
  split at h
  · next l hl =>
    split at h
    · next hst => exact ⟨l, hl, hst, h⟩
    · cases h
  · cases h

theorem step_inputThread {s s' : System} {t : TId} {fails : Bool}
    (h : step s (.input t fails) = .ok s') :
    ∃ l, s.life t = some l ∧ l.started = true ∧ inputThread s t l fails = .ok s' := by
  rw [step] at h
  split at h
  · next l hl =>
    split at h
    · next hst => exact ⟨l, hl, hst, h⟩
    · cases h
  · cases h

/-- The states the daemon reaches. -/
def Reachable (s : System) : Prop := Trans.Runs step (fun _ _ => True) System.init s

/-- Replaying actions that pass a test shows that a state is reached by a run of actions
that satisfy a condition. -/
theorem exists_run {ok : System → Action → Prop} {test : System → Action → Bool}
    {P : System → Bool} (as : List Action) (hok : ∀ x a, test x a = true → ok x a)
    (h : (Trans.follow step test System.init as).any P = true) :
    ∃ s, Trans.Runs step ok System.init s ∧ P s = true :=
  Trans.exists_runs as hok h

/-- The state after these actions, if they are possible one after the other. -/
def replay (as : List Action) : Option System :=
  Trans.follow step (fun _ _ => true) System.init as

/-- Replaying actions shows that a state is reached. -/
theorem exists_reachable (as : List Action) {P : System → Bool}
    (h : (replay as).any P = true) :
    ∃ s, Reachable s ∧ P s = true :=
  exists_run as (fun _ _ _ => trivial) h

/-! ### Replaying actions -/

/-- The action leads to a state with `P`. -/
def System.leads (s : System) (a : Action) (P : System → Bool) : Bool :=
  match step s a with
  | .ok s' => P s'
  | .error _ => false

theorem System.exists_step {s : System} {a : Action} {P : System → Bool}
    (h : s.leads a P = true) :
    ∃ s', step s a = .ok s' ∧ P s' = true := by
  rw [System.leads] at h
  split at h
  · next s' hs => exact ⟨s', hs, h⟩
  · cases h

/-- The fault the action ends with, if any. -/
def System.faults (s : System) (a : Action) : Option Fault :=
  match step s a with
  | .error (.fault f) => some f
  | _ => none

theorem System.step_of_faults {s : System} {a : Action} {f : Fault} (h : s.faults a = some f) :
    step s a = .error (.fault f) := by
  rw [System.faults] at h
  split at h
  · next f' hs => rw [hs, Option.some.inj h]
  · cases h

/-- A message as a remote sends it. -/
def wireMsg (command arg0 arg1 : UInt32) (data : List UInt8) : AMessage :=
  { command := command, arg0 := arg0, arg1 := arg1, dataLength := UInt32.ofNat data.length,
    dataCheck := dataSum data, magic := command ^^^ 0xffffffff }

/-- `select` reports an event, and its callback is made. -/
def event (k : FdeId) (ev : Events) (io : Io) :
    List Action := [.select [(k, ev)], .dispatch io]

/-- The remote of `t` sends a packet, and the main loop handles it. -/
def receive (t : TId) (command arg0 arg1 : UInt32) (data : List UInt8) (io : Io) :
    List Action :=
  .output t (some (wireMsg command arg0 arg1 data, data)) false ::
    event (.transport t) Events.onlyRead io

/-- The remote of `t` connects. -/
def greet (t : TId) : List Action :=
  receive t A_CNXN A_VERSION (UInt32.ofNat MAX_PAYLOAD)
    (ascii ['h', 'o', 's', 't', ':', ':']) {}

/-- A transport is registered, and its remote connects. -/
def connect (t : TId) (type : TransportType) : List Action :=
  .register type :: event .registration Events.onlyRead {} ++
    .output t none false :: event (.transport t) Events.onlyRead {} ++ greet t

/-- The remote opens a service. -/
def openService (t : TId) (id : UInt32) (name : List Char) (io : Io) : List Action :=
  receive t A_OPEN id 0 (ascii name ++ [0]) io

/-- The remote opens a shell, which gets the descriptor `fd`. -/
def openShell (t : TId) (id : UInt32) (fd : Nat) : List Action :=
  openService t id ['s', 'h', 'e', 'l', 'l', ':'] { service := some (fd, fd) }

/-- A client of the smart socket listener asks for a shell, as the local socket `x`. -/
def askShell (x : SockId) (fd : Nat) : List Action :=
  event .ssListener Events.onlyRead { accepted := some fd } ++
    event (.sock x) Events.onlyRead { reads :=
      [.data (ascii ['0', '0', '0', '6', 's', 'h', 'e', 'l', 'l', ':']), .eagain] }

/-- The remote asks to be told of JDWP processes. -/
def openTracker (t : TId) (id : UInt32) : List Action :=
  openService t id ['t', 'r', 'a', 'c', 'k', '-', 'j', 'd', 'w', 'p'] {}

end Adbd
