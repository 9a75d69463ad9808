import Adbd.Prog
import Adbd.Packet
import Adbd.Fdevent

/-!
# The Memory of the Daemon

The state the main loop works on: the `asocket`s, the two lists of local sockets, the
`atransport`s with their pipes, the event loop, the packet allocator, and a record of what
the daemon did. Sockets live in a heap of addresses that are never reused, so that a
pointer to a freed socket is a pointer to nothing; following it is the fault
`useAfterFree`. Packets are carried by value, each with the address it was allocated at,
and the allocator remembers which addresses are live; freeing a dead one is the fault
`doubleFree`.

The build modelled is the default one of the `Makefile`: the device side (`ADB_HOST` is
`0`), with the JDWP services, and with `auth_enabled` set to `0` by `adb_main`.

The record `Obs` of what happened is kept newest first. It is only ever extended.

## Main definitions

* `SockKind`: which `enqueue`, `ready` and `close` functions a socket carries.
* `ASocket`, `ATransport`, `Core`: the data of the daemon.
* `Io`: what the operating system answers during one handler.
* `M`: programs over `Core` with `Fault`s.
-/

namespace Adbd

open Program

/-- The address of an `asocket`. -/
abbrev SockId : Type := Nat

/-- The address of an `atransport`. -/
abbrev TId : Type := Nat

/-- The owner of an `fdevent`. -/
inductive FdeId
  | sock (s : SockId)
  | transport (t : TId)
  | registration
  | subproc
  | ssListener
  | jdwp
deriving DecidableEq, Repr

/-- The function pointers `enqueue`, `ready`, `close` of an `asocket`. The sources only
ever install these six triples: `localNotify` is a local socket rigged by
`smart_socket_enqueue` with `local_socket_ready_notify` and `local_socket_close_notify`. -/
inductive SockKind
  | localSocket
  | localNotify
  | remoteSocket
  | smartSocket
  | jdwpSocket
  | jdwpTracker
deriving DecidableEq, Repr

/-- `struct asocket`, with the extra field of `JdwpSocket` (`pass`) and of `JdwpTracker`
(`needUpdate`). The links `next` and `prev` are the lists of `Core`, the embedded
`fdevent` is the record of the event loop under `FdeId.sock`, and `queue` is the list from
`pkt_first` to `pkt_last`. -/
structure ASocket where
  kind : SockKind
  id : UInt32 := 0
  closing : Bool := false
  exitOnClose : Bool := false
  peer : Option SockId := none
  fd : Nat := 0
  writeFd : Nat := 0
  queue : List APacket := []
  transport : Option TId := none
  pass : Bool := false
  needUpdate : Bool := false
deriving DecidableEq, Repr

/-- `t->connection_state`. -/
inductive ConnState
  | offline
  | bootloader
  | device
  | host
  | recovery
  | noperm
  | sideload
deriving DecidableEq, Repr

/-- `t->type`. -/
inductive TransportType
  | usb
  | tcp
deriving DecidableEq, Repr

/-- The qualifiers `parse_banner` takes from the banner of a remote: `t->product`,
`t->model` and `t->device`. -/
structure Qualifiers where
  product : Option (List UInt8) := none
  model : Option (List UInt8) := none
  device : Option (List UInt8) := none
deriving DecidableEq, Repr

/-- The part of `struct atransport` the main loop works on. `disconnects` lists the
remote sockets whose `adisconnect` node is linked; `ioToMain` and `mainToIo` are the
contents of the two pipes, oldest first; `pipesOpen` is cleared when the `close` callback
of a TCP transport closes them. -/
structure ATransport where
  type : TransportType
  online : Bool := false
  connectionState : ConnState := .offline
  quals : Qualifiers := {}
  disconnects : List SockId := []
  ioToMain : List APacket := []
  mainToIo : List APacket := []
  pipesOpen : Bool := true
deriving DecidableEq, Repr

/-- The four ends of the pipes of a transport: `fd_read` and `fd_write` for its threads,
`transport_read` and `transport_write` for the main loop. -/
inductive PipeEnd
  | fdRead
  | fdWrite
  | transportRead
  | transportWrite
deriving DecidableEq, Repr

/-- Why a `FAIL` message is sent to a client of the smart socket. -/
inductive FailReason
  | closed
  | deviceOfflineX
  | deviceNotFound
  | insufficientPermissions
  | moreThanOne
  | deviceOffline
deriving DecidableEq, Repr

/-- What the daemon did: packets handed to `send_packet` (with the local socket they are
sent for), packets of the remote that `find_local_socket` matched to a socket, a local
socket becoming one end of a stream, payloads handed to `local_socket_enqueue`, bytes
`adb_write` accepted from a queue, packets written completely, fatal write errors, status
messages written to a client, descriptors closed. -/
inductive Obs
  | sent (t : TId) (s : Option SockId) (m : AMessage)
  | delivered (t : TId) (s : SockId) (m : AMessage)
  | opened (s : SockId)
  | taken (s : SockId) (bs : List UInt8)
  | wrote (s : SockId) (bs : List UInt8)
  | completed (s : SockId)
  | writeFailed (s : SockId)
  | status (fd : Nat) (okay : Bool)
  | failMsg (fd : Nat) (reason : FailReason)
  | closedFd (fd : Nat)
deriving DecidableEq, Repr

/-- The result of one `adb_read` call: bytes (at most as many as asked for are taken, and
none at all means end of file), `EAGAIN`, end of file, or a fatal error. -/
inductive ReadRes
  | data (bs : List UInt8)
  | eagain
  | eof
  | error
deriving DecidableEq, Repr

/-- What the operating system answers while one handler runs: the results of the `read`
and `write` calls in order, the descriptors `service_to_fd` obtained, the user id, the
descriptor `accept` returned, the random token, the descriptor a shell waiter reported
(as the record `fd_table` has for it), the result of `FIONREAD`, the pids of the JDWP
processes after the event, whether `main` was started with `recovery`, and the pipe ends of
other transports that have got the descriptors a removal closes. -/
structure Io where
  reads : List ReadRes := []
  writes : List WriteRes := []
  service : Option (Nat × Nat) := none
  uid : Nat := 0
  accepted : Option Nat := none
  token : Option (List UInt8) := none
  subproc : Option FdeId := none
  rcount : Nat := 0
  pids : List Int := []
  recovery : Bool := false
  reused : List (TId × PipeEnd) := []
deriving DecidableEq, Repr

/-- The memory of the daemon's main loop. `cut` lists the pipe ends that were closed by
the removal of another transport. -/
@[ext] structure Core where
  sockets : SockId → Option ASocket
  nextSock : Nat
  localSocketList : List SockId
  localSocketClosingList : List SockId
  localSocketNextId : UInt32
  jdwpTrackersList : List SockId
  jdwpList : List Int
  transports : TId → Option ATransport
  transportList : List TId
  loop : Loop FdeId
  livePkts : Nat → Bool
  nextPkt : Nat
  cut : List (TId × PipeEnd)
  log : List Obs
  io : Io

/-- How a handler can fail to return. -/
inductive Fault
  /-- `s->peer` is followed although it is null -/
  | nullPeer (s : SockId)
  /-- a freed socket is accessed -/
  | useAfterFree (s : SockId)
  /-- a freed transport is accessed -/
  | staleTransport (t : TId)
  /-- `put_apacket` on a packet that is not live -/
  | doubleFree (addr : Nat)
  /-- the never initialised `key_list` is walked -/
  | nullKeyList
  /-- the write of `send_packet` to `t->transport_write` fails, and it calls `fatal_errno` -/
  | closedPipe (t : TId)
  /-- any other `fatal`, `fatal_errno` -/
  | fatal
  /-- `exit(1)` of a socket with `exit_on_close` -/
  | exit
  /-- a recursion deeper than its bound -/
  | tooDeep
deriving DecidableEq, Repr

/-- Handlers: programs over `Core` that may stop with a `Fault`. -/
abbrev M : Type → Type := Prog Core Fault

/-- The memory before the first event: nothing is allocated, and the registration pipe,
the shell-exit pipe, the smart-socket listener and the JDWP control socket are watched for
`FDE_READ`. -/
def Core.init : Core where
  sockets := fun _ => none
  nextSock := 0
  localSocketList := []
  localSocketClosingList := []
  localSocketNextId := 1
  jdwpTrackersList := []
  jdwpList := []
  transports := fun _ => none
  transportList := []
  loop :=
    [FdeId.registration, .subproc, .ssListener, .jdwp].foldl
      (fun l k => (l.fdeventInstall k 0).fdeventAdd k Events.onlyRead) Loop.empty
  livePkts := fun _ => false
  nextPkt := 0
  cut := []
  log := []
  io := {}

/-! ### Access to the memory -/

/-- Record an observation. -/
def Core.note (c : Core) (o : Obs) : Core := { c with log := o :: c.log }

/-- Overwrite a socket. -/
def Core.putSock (c : Core) (s : SockId) (a : Option ASocket) : Core :=
  { c with sockets := Function.update c.sockets s a }

/-- Overwrite a transport. -/
def Core.putTransport (c : Core) (t : TId) (T : Option ATransport) : Core :=
  { c with transports := Function.update c.transports t T }

/-- Follow a socket pointer. -/
def getSock (s : SockId) : M ASocket := do
  match (← get).sockets s with
  | some a => pure a
  | none => fault (.useAfterFree s)

/-- Write to a socket through a pointer. -/
def modSock (s : SockId) (f : ASocket → ASocket) : M Unit := do
  let a ← getSock s
  modify (·.putSock s (some (f a)))

/-- `free(s)`. -/
def freeSock (s : SockId) : M Unit := do
  let _ ← getSock s
  modify (·.putSock s none)

/-- `calloc` of a socket. -/
def allocSock (a : ASocket) : M SockId := do
  let c ← get
  set { c.putSock c.nextSock (some a) with nextSock := c.nextSock + 1 }
  pure c.nextSock

/-- Follow a transport pointer. -/
def getTransport (t : TId) : M ATransport := do
  match (← get).transports t with
  | some T => pure T
  | none => fault (.staleTransport t)

/-- Write to a transport through a pointer. -/
def modTransport (t : TId) (f : ATransport → ATransport) : M Unit := do
  let T ← getTransport t
  modify (·.putTransport t (some (f T)))

/-- Record an observation. -/
def note (o : Obs) : M Unit := modify (·.note o)

/-- A change of the event loop. -/
def modLoop (f : Loop FdeId → Loop FdeId) : M Unit :=
  modify fun c => { c with loop := f c.loop }

/-- `get_apacket`. -/
def getApacket : M APacket := do
  let c ← get
  set { c with livePkts := Function.update c.livePkts c.nextPkt true,
               nextPkt := c.nextPkt + 1 }
  pure { addr := c.nextPkt }

/-- `put_apacket`. -/
def putApacket (p : APacket) : M Unit := do
  let c ← get
  if c.livePkts p.addr then
    set { c with livePkts := Function.update c.livePkts p.addr false }
  else fault (.doubleFree p.addr)

/-- Free the packets of a queue, first to last. -/
def putApackets : List APacket → M Unit
  | [] => pure ()
  | p :: q => do
      putApacket p
      putApackets q

/-- Access the list links of sockets, as linking and unlinking a neighbour does. -/
def touch : List SockId → M Unit
  | [] => pure ()
  | s :: l => do
      let _ ← getSock s
      touch l

/-- The neighbours of `s` in a list: the sockets whose links change when it is unlinked. -/
def adjacent (s : SockId) : List SockId → List SockId
  | x :: y :: l =>
      if x = s then [y]
      else if y = s then x :: l.head?.toList
      else adjacent s (y :: l)
  | _ => []

/-! ### Sending packets -/

/-- The sum of bytes `send_packet` and `check_data` compute. -/
def dataSum (bs : List UInt8) : UInt32 := bs.foldl (fun n b => n + b.toUInt32) 0

/-- Whether a read from `transport_read` can succeed. -/
def Core.canRead (c : Core) (t : TId) (T : ATransport) : Bool :=
  T.pipesOpen && (t, .transportRead) ∉ c.cut

/-- Whether a write to `transport_write` succeeds: the end is open, and so is `fd_read`,
the only reader of the pipe. -/
def Core.canWrite (c : Core) (t : TId) (T : ATransport) : Bool :=
  T.pipesOpen && (t, .transportWrite) ∉ c.cut && (t, .fdRead) ∉ c.cut

/-- `send_packet(p, t)` for the local socket `s`: finish the header and write the packet's
address into the pipe to the input thread. -/
def sendPacket (p : APacket) (t : Option TId) (s : Option SockId) : M Unit := do
  let m := { p.msg with
    magic := p.msg.command ^^^ 0xffffffff,
    dataCheck := dataSum (p.data.take p.msg.dataLength.toNat) }
  match t with
  | none => fault .fatal
  | some t => do
      let T ← getTransport t
      if (← get).canWrite t T then
        modTransport t fun T => { T with mainToIo := T.mainToIo ++ [{ p with msg := m }] }
        note (.sent t s m)
      else fault (.closedPipe t)

/-- A packet without payload: `get_apacket`, fill in the header, `send_packet`. -/
def sendMsg (command arg0 arg1 : UInt32) (t : Option TId) (s : Option SockId) : M Unit := do
  let p ← getApacket
  sendPacket
    { p with msg := { p.msg with command := command, arg0 := arg0, arg1 := arg1 } } t s

/-- `add_transport_disconnect`. -/
def addTransportDisconnect (t : TId) (s : SockId) : M Unit := do
  let T ← getTransport t
  touch T.disconnects.getLast?.toList
  modTransport t fun T => { T with disconnects := T.disconnects ++ [s] }

/-- `remove_transport_disconnect`. -/
def removeTransportDisconnect (t : Option TId) (s : SockId) : M Unit := do
  match t with
  | none => fault .fatal
  | some t => do
      let T ← getTransport t
      touch (adjacent s T.disconnects)
      modTransport t fun T => { T with disconnects := T.disconnects.erase s }

end Adbd
