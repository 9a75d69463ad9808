import Adbd.System

/-!
# The Operations the Handlers Are Made Of

Between two points at which the daemon's data are consistent, every handler performs one
of a fixed set of operations: it closes a stream, opens one, queues a payload, drains a
queue, sends a packet, and so on. This module lists them as data, with the condition under
which each is performed and its effect on the memory as a pure function. That every
handler is a sequence of such operations is proved in `Adbd.Handlers`; invariants are then
proved operation by operation.

A handler also holds packets that are in no queue and in no pipe. They are made explicit
as the `hand` of a `Work`.

## Main definitions

* `Work`: the memory together with the packets the running handler holds.
* `Close`, `Core.close`: closing a stream, in all the ways the code does it.
* `Op`, `Op.Guard`, `Op.apply`: the operations.
* `Ops P`: sequences of operations, each of which satisfies `P`.
-/

namespace Adbd

open Program

/-! ### Kinds and observations -/

/-- The sockets `install_local_socket` puts on `local_socket_list`. -/
def SockKind.isEnd : SockKind → Bool
  | .localSocket | .localNotify | .jdwpSocket | .jdwpTracker => true
  | .remoteSocket | .smartSocket => false

/-- The sockets made by `create_local_socket` and `create_local_socket_pair`. -/
def SockKind.isLocal : SockKind → Bool
  | .localSocket | .localNotify => true
  | _ => false

/-- The sockets made by the JDWP services. -/
def SockKind.isJdwp : SockKind → Bool
  | .jdwpSocket | .jdwpTracker => true
  | _ => false

/-- The local socket an observation is about, if any. -/
def Obs.subject : Obs → Option SockId
  | .sent _ s _ => s
  | .delivered _ s _ => some s
  | .opened s => some s
  | .taken s _ => some s
  | .wrote s _ => some s
  | .completed s => some s
  | .writeFailed s => some s
  | .status _ _ => none
  | .failMsg _ _ => none
  | .closedFd _ => none

/-- Observations about no local socket. -/
def Quiet (l : List Obs) : Prop := ∀ o ∈ l, o.subject = none

@[simp] theorem quiet_nil : Quiet [] := by simp [Quiet]

@[simp] theorem quiet_cons (o : Obs) (l : List Obs) :
    Quiet (o :: l) ↔ o.subject = none ∧ Quiet l := by simp [Quiet]

@[simp] theorem quiet_append (l l' : List Obs) : Quiet (l ++ l') ↔ Quiet l ∧ Quiet l' := by
  simp [Quiet, or_imp, forall_and]

/-! ### Effects on the memory -/

/-- The header as `send_packet` completes it. -/
def APacket.finish (p : APacket) : APacket :=
  { p with msg := { p.msg with
      magic := p.msg.command ^^^ 0xffffffff,
      dataCheck := dataSum (p.data.take p.msg.dataLength.toNat) } }

/-- A packet without payload, as `send_packet` completes it. -/
def ctlPacket (addr : Nat) (command arg0 arg1 : UInt32) : APacket :=
  APacket.finish { addr := addr, msg := { command := command, arg0 := arg0, arg1 := arg1 } }

@[simp] theorem APacket.finish_addr (p : APacket) : p.finish.addr = p.addr := rfl

@[simp] theorem ctlPacket_addr (addr : Nat) (command arg0 arg1 : UInt32) :
    (ctlPacket addr command arg0 arg1).addr = addr := rfl

namespace Core

/-- A change of the event loop. -/
def onLoop (c : Core) (f : Loop FdeId → Loop FdeId) : Core := { c with loop := f c.loop }

/-- The memory after `get_apacket`, which returned `c.nextPkt`. -/
def newPkt (c : Core) : Core :=
  { c with livePkts := Function.update c.livePkts c.nextPkt true, nextPkt := c.nextPkt + 1 }

/-- The memory after the packets at these addresses were freed. -/
def freePkts (c : Core) (l : List Nat) : Core :=
  { c with livePkts := fun x => if x ∈ l then false else c.livePkts x }

/-- A packet appended to the pipe of the input thread of `t`. -/
def push (c : Core) (t : TId) (T : ATransport) (p : APacket) : Core :=
  c.putTransport t (some { T with mainToIo := T.mainToIo ++ [p] })

/-- `get_apacket` and `send_packet` of the packet `f` makes of the new address, for the
local socket `s`. -/
def sendNew (c : Core) (t : TId) (T : ATransport) (s : Option SockId) (f : Nat → APacket) :
    Core :=
  (c.newPkt.push t T (f c.nextPkt)).note (.sent t s (f c.nextPkt).msg)

@[simp] theorem onLoop_sockets (c : Core) (f : Loop FdeId → Loop FdeId) :
    (c.onLoop f).sockets = c.sockets := rfl

@[simp] theorem onLoop_transports (c : Core) (f : Loop FdeId → Loop FdeId) :
    (c.onLoop f).transports = c.transports := rfl

@[simp] theorem onLoop_loop (c : Core) (f : Loop FdeId → Loop FdeId) :
    (c.onLoop f).loop = f c.loop := rfl

end Core

/-! ### Closing -/

/-- What makes a stream close: the `close` function of its local end, the end of file of
its descriptor, `close_all_sockets`, the `close` function of its other end, or
`run_transport_disconnects`. -/
inductive CloseWay
  | call
  | eof
  | locked
  | fromPeer
  | disconnect
deriving DecidableEq, Repr

/-- A stream that is closed: its local end, the other end if there is one, the way it
happens, and what is noted meanwhile. -/
structure Close where
  sock : SockId
  self : ASocket
  far : Option (SockId × ASocket)
  how : CloseWay
  notes : List Obs

namespace Close

/-- What is left of the local end: it stays on the closing list if it has unwritten data
and was not closing before. -/
def fate (d : Close) : Option ASocket :=
  if d.self.closing || d.self.queue.isEmpty then none
  else
    some { d.self with
      kind := if d.how = .locked then d.self.kind else .localSocket
      peer := none, closing := true, id := 0 }

/-- The packets freed: those of the queue if the local end is destroyed, and what a smart
socket had collected. -/
def freed (d : Close) : List Nat :=
  (match d.far with
    | some (_, b) =>
        if b.kind = .smartSocket then (b.queue.head?.toList).map (·.addr) else []
    | none => []) ++
  if d.fate.isSome then [] else d.self.queue.map (·.addr)

/-- The `CLSE` packet sent to the remote, if any. -/
def clse (d : Close) (addr : Nat) : List APacket :=
  match d.far with
  | some (_, b) =>
      if b.kind = .remoteSocket ∧ d.how ≠ .disconnect then
        [ctlPacket addr A_CLSE (if d.how = .fromPeer then d.self.id else 0) b.id]
      else []
  | none => []

/-- The remote end, with its transport. -/
def remote (d : Close) : Option (SockId × TId) :=
  match d.far with
  | some (o, b) => if b.kind = .remoteSocket then b.transport.map (o, ·) else none
  | none => none

/-- The transport `t` afterwards: the remote end has unlinked its disconnect node. -/
def onTransport (d : Close) (addr : Nat) (t : TId) (T : ATransport) : ATransport :=
  match d.remote with
  | some (o, t') =>
      if t' = t then
        { T with
          mainToIo := T.mainToIo ++ d.clse addr
          disconnects := T.disconnects.erase o }
      else T
  | none => T

/-- The event loop afterwards. -/
def loop (d : Close) (l : Loop FdeId) : Loop FdeId :=
  if d.fate.isSome then l.fdeventDel (.sock d.sock) Events.onlyRead
  else if d.self.kind.isLocal || d.how = .locked then l.fdeventRemove (.sock d.sock)
  else l

end Close

/-- The memory after a stream was closed. -/
def Core.close (c : Core) (d : Close) : Core :=
  { c with
    sockets := fun x =>
      if x = d.sock then d.fate
      else if d.far.map (·.1) = some x then none
      else c.sockets x
    localSocketList := c.localSocketList.erase d.sock
    localSocketClosingList :=
      if d.fate.isSome then c.localSocketClosingList ++ [d.sock]
      else c.localSocketClosingList.erase d.sock
    jdwpTrackersList :=
      if d.self.kind = .jdwpTracker ∧ d.how ≠ .locked then c.jdwpTrackersList.erase d.sock
      else c.jdwpTrackersList
    transports := fun t => (c.transports t).map (d.onTransport c.nextPkt t)
    loop := d.loop c.loop
    livePkts := fun x =>
      if d.clse c.nextPkt ≠ [] ∧ x = c.nextPkt then true
      else if x ∈ d.freed then false else c.livePkts x
    nextPkt := c.nextPkt + (d.clse c.nextPkt).length
    log := d.notes ++ c.log }

/-- Closing touches no transport if there is no remote end. -/
theorem Core.close_transports_none {c : Core} {d : Close} (h : d.remote = none) :
    (c.close d).transports = c.transports := by
  funext t
  cases hT : c.transports t with
  | none => simp [Core.close, hT]
  | some T => simp [Core.close, hT, Close.onTransport, h]

/-- Closing touches only the transport of the remote end. -/
theorem Core.close_transports_some {c : Core} {d : Close} {o : SockId} {t : TId}
    {T : ATransport} (h : d.remote = some (o, t)) (hT : c.transports t = some T) :
    (c.close d).transports = Function.update c.transports t (some { T with
      mainToIo := T.mainToIo ++ d.clse c.nextPkt
      disconnects := T.disconnects.erase o }) := by
  funext t'
  by_cases ht : t' = t
  · subst ht
    simp [Core.close, hT, Close.onTransport, h]
  · cases hT' : c.transports t' with
    | none => simp [Core.close, hT', ht]
    | some T' => simp [Core.close, hT', Close.onTransport, h, ht, Ne.symm ht]

/-- Closing a stream touches only the records of sockets. -/
theorem Close.loop_fdes (d : Close) (l : Loop FdeId) {j : FdeId} (hj : j ≠ .sock d.sock) :
    (d.loop l).fdes j = l.fdes j := by
  unfold Close.loop
  split
  · exact l.fdeventDel_fdes_of_ne _ hj
  split
  · exact l.fdeventRemove_fdes_of_ne hj
  · rfl

/-- The same transports are registered: they are live, on the list, and watched. -/
structure Core.SameTransports (c c' : Core) : Prop where
  list : c'.transportList = c.transportList
  live : ∀ t, c'.transports t = none ↔ c.transports t = none
  watched : ∀ t, (c'.loop.fdes (.transport t)).active = (c.loop.fdes (.transport t)).active

theorem Core.SameTransports.refl (c : Core) : c.SameTransports c :=
  ⟨rfl, fun _ => .rfl, fun _ => rfl⟩

theorem Core.SameTransports.trans {c c' c'' : Core} (h : c.SameTransports c')
    (h' : c'.SameTransports c'') : c.SameTransports c'' :=
  ⟨h'.list.trans h.list, fun t => (h'.live t).trans (h.live t),
    fun t => (h'.watched t).trans (h.watched t)⟩

/-- Closing a stream registers and removes no transport. -/
theorem Core.close_sameTransports (c : Core) (d : Close) : c.SameTransports (c.close d) := by
  refine ⟨rfl, fun t => ?_, fun t => ?_⟩
  · simp [Core.close]
  · rw [show (c.close d).loop = d.loop c.loop from rfl, d.loop_fdes c.loop (by simp)]

/-! ### Opening -/

/-- A stream opened by the remote: the kind and descriptors of the new local end, the
remote's id for it and the transport. -/
structure Open where
  kind : SockKind
  fd : Nat
  writeFd : Nat
  exitOnClose : Bool
  remote : UInt32
  t : TId
  T : ATransport

/-- The memory after `A_OPEN` created both ends of a stream and answered `OKAY`; a local
socket is watched for `FDE_READ` at once. -/
def Core.openStream (c : Core) (d : Open) : Core :=
  let s := c.nextSock
  let p := ctlPacket c.nextPkt A_OKAY c.localSocketNextId d.remote
  { c with
    sockets := fun x =>
      if x = s then
        some { kind := d.kind, id := c.localSocketNextId, exitOnClose := d.exitOnClose,
               peer := some (s + 1), fd := d.fd, writeFd := d.writeFd,
               needUpdate := d.kind = .jdwpTracker }
      else if x = s + 1 then
        some { kind := .remoteSocket, id := d.remote, transport := some d.t, peer := some s }
      else c.sockets x
    nextSock := c.nextSock + 2
    localSocketNextId := c.localSocketNextId + 1
    localSocketList := c.localSocketList ++ [s]
    jdwpTrackersList :=
      if d.kind = .jdwpTracker then c.jdwpTrackersList ++ [s] else c.jdwpTrackersList
    transports := Function.update c.transports d.t
      (some { d.T with disconnects := d.T.disconnects ++ [s + 1],
                       mainToIo := d.T.mainToIo ++ [p] })
    loop :=
      if d.kind = .localSocket then
        (c.loop.fdeventInstall (.sock s) d.fd).fdeventAdd (.sock s) Events.onlyRead
      else c.loop
    livePkts := Function.update c.livePkts c.nextPkt true
    nextPkt := c.nextPkt + 1
    log := .opened s :: .sent d.t (some s) p.msg :: c.log }

/-- The memory after the smart socket listener accepted a client. -/
def Core.accept (c : Core) (fd : Nat) : Core :=
  let s := c.nextSock
  { c with
    sockets := fun x =>
      if x = s then
        some { kind := .localSocket, id := c.localSocketNextId, peer := some (s + 1), fd := fd,
               writeFd := fd }
      else if x = s + 1 then some { kind := .smartSocket, peer := some s }
      else c.sockets x
    nextSock := c.nextSock + 2
    localSocketNextId := c.localSocketNextId + 1
    localSocketList := c.localSocketList ++ [s]
    loop := (c.loop.fdeventInstall (.sock s) fd).fdeventAdd (.sock s) Events.onlyRead }

/-- The memory after an `OKAY` made the waiting local socket `s` one end of a stream. -/
def Core.attach (c : Core) (s : SockId) (a : ASocket) (id : UInt32) (t : TId) (T : ATransport)
    (m : AMessage) : Core :=
  let r := c.nextSock
  { c with
    sockets := fun x =>
      if x = s then some { a with kind := .localSocket, peer := some r }
      else if x = r then
        some { kind := .remoteSocket, id := id, transport := some t, peer := some s }
      else c.sockets x
    nextSock := c.nextSock + 1
    transports := Function.update c.transports t
      (some { T with disconnects := T.disconnects ++ [r] })
    loop := c.loop.fdeventAdd (.sock s) Events.onlyRead
    log :=
      (if a.kind = .localNotify then [.status a.fd true] else []) ++
        .opened s :: .delivered t s m :: c.log }

/-- The memory after the smart socket `ss` connected its client `s` to a service on `t`
and went away. -/
def Core.rig (c : Core) (s : SockId) (a : ASocket) (ss : SockId) (b : ASocket) (t : TId)
    (T : ATransport) (p : Nat → APacket) : Core :=
  { c with
    sockets := fun x =>
      if x = s then some { a with kind := .localNotify, peer := none, transport := some t }
      else if x = ss then none
      else c.sockets x
    transports := Function.update c.transports t
      (some { T with mainToIo := T.mainToIo ++ [p c.nextPkt] })
    livePkts := fun x =>
      if x ∈ (b.queue.head?.toList).map (·.addr) then false
      else if x = c.nextPkt then true else c.livePkts x
    nextPkt := c.nextPkt + 1
    log := .sent t none (p c.nextPkt).msg :: c.log }

/-- The memory after `FDE_WRITE` callbacks of `s` wrote out what they could. -/
def Core.drained (c : Core) (s : SockId) (a : ASocket) (d : Drained) : Core :=
  { (c.putSock s (some { a with queue := d.queue })).freePkts (d.done.map (·.addr)) with
    log := List.replicate d.done.length (.completed s) ++ .wrote s d.bytes :: c.log }

@[simp] theorem Core.drained_loop (c : Core) (s : SockId) (a : ASocket) (d : Drained) :
    (c.drained s a d).loop = c.loop := rfl

@[simp] theorem Core.drained_transports (c : Core) (s : SockId) (a : ASocket) (d : Drained) :
    (c.drained s a d).transports = c.transports := rfl

/-- Append to the queue of `s` and watch for `FDE_WRITE`. -/
def Core.link (c : Core) (s : SockId) (a : ASocket) (p : APacket) : Core :=
  (c.putSock s (some { a with queue := a.queue ++ [p] })).onLoop
    (·.fdeventAdd (.sock s) Events.onlyWrite)

/-! ### The operations -/

/-- The memory, and the addresses of the packets the running handler holds. -/
structure Work where
  core : Core
  hand : List Nat

/-- The operations of the handlers. Sockets and transports come with their records. -/
inductive Op
  /-- the answers of the operating system for the next handler -/
  | io (io : Io)
  /-- the pids of the JDWP processes -/
  | pids (l : List Int)
  /-- something is noted that concerns no local socket -/
  | note (o : Obs)
  /-- a packet of the remote is matched to a socket, and neither acknowledges data for a
  local socket nor carries data for one -/
  | deliver (t : TId) (s : SockId) (m : AMessage)
  /-- `get_apacket`, `put_apacket`, and dropping a packet without freeing it -/
  | newPkt
  | freePkt (addr : Nat)
  | lose (addr : Nat)
  /-- a `select` round, the delivery of a record's events, and what
  `fdevent_subproc_event_func` does to a record -/
  | select (ready : List (FdeId × Events))
  | take (k : FdeId)
  | force (k : FdeId)
  | pendRead (k : FdeId)
  /-- a packet is sent that belongs to no stream, or by a JDWP socket -/
  | send (t : TId) (T : ATransport) (p : APacket)
  | sendList (s : SockId) (t : TId) (T : ATransport) (p : APacket)
  /-- a JDWP socket notes what it has sent -/
  | flags (s : SockId) (a : ASocket) (pass needUpdate : Bool)
  /-- a client of the smart socket is accepted, its request collected, its transport
  chosen, and the request granted -/
  | accept (fd : Nat)
  | collectFirst (s : SockId) (b : ASocket) (p : APacket)
  | collectMore (s : SockId) (b : ASocket) (p : APacket)
  | choose (s : SockId) (b : ASocket) (t : Option TId)
  | rig (s : SockId) (a : ASocket) (ss : SockId) (b : ASocket) (t : TId) (T : ATransport)
      (p : Nat → APacket)
  | readOff (s : SockId)
  /-- `A_OPEN`, and `A_OKAY` for a socket without and with a peer -/
  | openStream (d : Open)
  | attach (s : SockId) (a : ASocket) (id : UInt32) (t : TId) (T : ATransport) (m : AMessage)
  | ready (s : SockId) (t : TId) (m : AMessage)
  /-- `A_WRTE` for a local socket: behind other packets, blocked, failed, written -/
  | wrteQueue (t : TId) (s : SockId) (a : ASocket) (m : AMessage) (p : APacket)
  | wrteBlock (t : TId) (s : SockId) (a : ASocket) (m : AMessage) (p : APacket)
      (bs : List UInt8)
  | wrteFail (t : TId) (s : SockId) (m : AMessage) (p : APacket) (bs : List UInt8)
  | wrteDone (t : TId) (s : SockId) (a : ASocket) (T : ATransport) (m : AMessage) (p : APacket)
  /-- an `FDE_WRITE` callback: it blocks or fails, it finishes a closing socket, or it
  tells the peer to go on -/
  | drain (s : SockId) (a : ASocket) (d : Drained)
  | drainDestroy (s : SockId) (a : ASocket) (d : Drained) (notes : List Obs)
  | drainReady (s : SockId) (a : ASocket) (d : Drained)
      (far : Option (TId × ATransport × UInt32))
  /-- an `FDE_READ` callback sends what it read -/
  | readWrte (s : SockId) (a : ASocket) (t : TId) (T : ATransport) (p : APacket)
  | close (d : Close)
  /-- the state of a transport, its pipes and its registration -/
  | conn (t : TId) (T : ATransport) (online : Bool) (state : ConnState) (quals : Qualifiers)
  | popMain (t : TId) (T : ATransport) (p : APacket) (rest : List APacket)
  | popIo (t : TId) (T : ATransport) (p : APacket) (rest : List APacket)
  | post (t : TId) (T : ATransport) (p : APacket)
  | closePipes (t : TId) (T : ATransport)
  | register (t : TId) (type : TransportType)
  | unlink (t : TId) (reused : List (TId × PipeEnd))
  | unregister (t : TId) (T : ATransport)

namespace Op

/-- When an operation is performed. -/
def Guard (w : Work) : Op → Prop
  | .io _ | .pids _ | .newPkt | .accept _ | .unlink .. => True
  | .note o => o.subject = none
  | .deliver _ s m =>
      ∃ a, w.core.sockets s = some a ∧ a.kind.isEnd ∧
        (a.kind.isJdwp ∨ (m.command ≠ A_OKAY ∧ m.command ≠ A_WRTE))
  | .freePkt x | .lose x => x ∈ w.hand
  | .select rs =>
      w.core.loop.pending = [] ∧ ∀ r ∈ rs, (w.core.loop.fdes r.1).active = true ∧
        (r.2.Subset (w.core.loop.fdes r.1).interest ∨ r.2 = Events.onlyRead)
  | .take k => ∃ rest, w.core.loop.pending = k :: rest
  | .force k => (w.core.loop.fdes k).active = true
  | .pendRead k => (w.core.loop.fdes k).pending = true
  | .send t T p => w.core.transports t = some T ∧ p.addr ∈ w.hand
  | .sendList s t T p =>
      w.core.transports t = some T ∧ p.addr ∈ w.hand ∧
        (∃ a, w.core.sockets s = some a ∧ a.kind.isJdwp) ∧
        ∃ q b, w.core.sockets q = some b ∧ b.kind = .remoteSocket ∧ b.transport = some t
  | .flags s a _ _ => w.core.sockets s = some a ∧ a.kind.isJdwp
  | .collectFirst s b p =>
      w.core.sockets s = some b ∧ b.kind = .smartSocket ∧ b.queue = [] ∧ p.addr ∈ w.hand
  | .collectMore s b p =>
      w.core.sockets s = some b ∧ b.kind = .smartSocket ∧ b.queue.map (·.addr) = [p.addr]
  | .choose s b _ => w.core.sockets s = some b ∧ b.kind = .smartSocket
  | .rig s a ss b t T p =>
      w.core.sockets s = some a ∧ a.peer = some ss ∧ w.core.sockets ss = some b ∧
        b.kind = .smartSocket ∧ b.peer = some s ∧ w.core.transports t = some T ∧
        ∀ x, (p x).addr = x
  | .readOff s => ∃ a, w.core.sockets s = some a ∧ a.kind = .localNotify
  | .openStream d =>
      d.kind.isEnd ∧ d.kind ≠ .localNotify ∧ w.core.transports d.t = some d.T
  | .attach s a _ t T _ =>
      w.core.sockets s = some a ∧ a.kind.isLocal ∧ a.peer = none ∧ a.closing = false ∧
        w.core.transports t = some T
  | .ready s _ _ =>
      ∃ a, w.core.sockets s = some a ∧ a.kind = .localSocket ∧ a.closing = false
  | .wrteQueue _ s a _ p =>
      w.core.sockets s = some a ∧ a.kind.isLocal ∧ a.closing = false ∧ a.queue ≠ [] ∧
        p.addr ∈ w.hand
  | .wrteBlock _ s a _ p bs =>
      w.core.sockets s = some a ∧ a.kind.isLocal ∧ a.closing = false ∧ a.queue = [] ∧
        p.addr ∈ w.hand ∧ p.bytes.take bs.length = bs
  | .wrteFail _ s _ _ _ => ∃ a, w.core.sockets s = some a ∧ a.kind.isLocal ∧ a.closing = false
  | .wrteDone t s a T _ p =>
      w.core.sockets s = some a ∧ a.kind.isLocal ∧ a.closing = false ∧ a.queue = [] ∧
        p.addr ∈ w.hand ∧ w.core.transports t = some T
  | .drain s a d =>
      w.core.sockets s = some a ∧ a.kind.isLocal ∧ (∃ ws, d = Adbd.drain ws a.queue) ∧
        d.verdict ≠ .drained ∧ (w.core.loop.fdes (.sock s)).events = {}
  | .drainDestroy s a d notes =>
      w.core.sockets s = some a ∧ a.kind.isLocal ∧ (∃ ws, d = Adbd.drain ws a.queue) ∧
        d.verdict = .drained ∧ a.closing = true ∧ Quiet notes
  | .drainReady s a d far =>
      w.core.sockets s = some a ∧ a.kind = .localSocket ∧
        (∃ ws, d = Adbd.drain ws a.queue) ∧ d.verdict = .drained ∧ a.closing = false ∧
        (w.core.loop.fdes (.sock s)).events = {} ∧
        ∃ q b, a.peer = some q ∧ w.core.sockets q = some b ∧
          ((b.kind = .smartSocket ∧ far = none) ∨
            (b.kind = .remoteSocket ∧ ∃ t T, b.transport = some t ∧
              w.core.transports t = some T ∧ far = some (t, T, b.id)))
  | .readWrte s a t T p =>
      w.core.sockets s = some a ∧ a.kind = .localSocket ∧ w.core.transports t = some T ∧
        p.addr ∈ w.hand ∧ p.msg.command = A_WRTE ∧
        ∃ q b, a.peer = some q ∧ w.core.sockets q = some b ∧ b.kind = .remoteSocket ∧
          b.transport = some t
  | .close d =>
      w.core.sockets d.sock = some d.self ∧ d.self.kind.isEnd ∧
        d.self.peer = d.far.map (·.1) ∧ Quiet d.notes ∧
        ∀ o b, d.far = some (o, b) → w.core.sockets o = some b
  | .conn t T _ _ _ => w.core.transports t = some T
  | .popMain t T p rest => w.core.transports t = some T ∧ T.ioToMain = p :: rest
  | .popIo t T p rest => w.core.transports t = some T ∧ T.mainToIo = p :: rest
  | .post t T p => w.core.transports t = some T ∧ p.addr ∈ w.hand
  | .closePipes t T => w.core.transports t = some T
  | .register t _ => w.core.transports t = none
  | .unregister t T =>
      w.core.transports t = some T ∧ T.disconnects = [] ∧
        (w.core.loop.fdes (.transport t)).active = false

/-- The effect of an operation on the memory. -/
def effect (c : Core) : Op → Core
  | .io x => { c with io := x }
  | .pids l => { c with jdwpList := l }
  | .note o => c.note o
  | .deliver t s m => c.note (.delivered t s m)
  | .newPkt => c.newPkt
  | .freePkt x => c.freePkts [x]
  | .lose _ => c
  | .select rs => c.onLoop (·.fdeventProcess rs)
  | .take k =>
      c.onLoop fun l => (({ l with pending := l.pending.tail } : Loop FdeId).fdeventTake k).2
  | .force k => c.onLoop fun l => l.put k { l.fdes k with forceEof := true }
  | .pendRead k =>
      c.onLoop fun l => l.put k { l.fdes k with events := (l.fdes k).events.union .onlyRead }
  | .send t T p => (c.push t T p).note (.sent t none p.msg)
  | .sendList s t T p => (c.push t T p).note (.sent t (some s) p.msg)
  | .flags s a pass needUpdate =>
      c.putSock s (some { a with pass := pass, needUpdate := needUpdate })
  | .accept fd => c.accept fd
  | .collectFirst s b p | .collectMore s b p => c.putSock s (some { b with queue := [p] })
  | .choose s b t => c.putSock s (some { b with transport := t })
  | .rig s a ss b t T p => c.rig s a ss b t T p
  | .readOff s => c.onLoop (·.fdeventDel (.sock s) Events.onlyRead)
  | .openStream d => c.openStream d
  | .attach s a id t T m => c.attach s a id t T m
  | .ready s t m =>
      (c.note (.delivered t s m)).onLoop (·.fdeventAdd (.sock s) Events.onlyRead)
  | .wrteQueue t s a m p =>
      ((c.note (.delivered t s m)).note (.taken s p.bytes)).link s a p
  | .wrteBlock t s a m p bs =>
      (((c.note (.delivered t s m)).note (.taken s p.bytes)).note (.wrote s bs)).link s a
        (p.advance bs.length)
  | .wrteFail t s m p bs =>
      (((c.note (.delivered t s m)).note (.taken s p.bytes)).note (.wrote s bs)).note
        (.writeFailed s)
  | .wrteDone t s a T m p =>
      (((((c.note (.delivered t s m)).note (.taken s p.bytes)).note (.wrote s p.bytes)).note
        (.completed s)).freePkts [p.addr]).sendNew t T (some s)
          fun x => ctlPacket x A_OKAY a.id m.arg0
  | .drain s a d =>
      match d.verdict with
      | .failed => (c.drained s a d).note (.writeFailed s)
      | _ => c.drained s a d
  | .drainDestroy s a d notes =>
      (c.drained s a d).close
        { sock := s, self := { a with queue := d.queue }, far := none, how := .call, notes }
  | .drainReady s a d far =>
      let c := (c.drained s a d).onLoop (·.fdeventDel (.sock s) Events.onlyWrite)
      match far with
      | some (t, T, id) => c.sendNew t T (some s) fun x => ctlPacket x A_OKAY a.id id
      | none => c
  | .readWrte s _ t T p =>
      ((c.push t T p).note (.sent t (some s) p.msg)).onLoop
        (·.fdeventDel (.sock s) Events.onlyRead)
  | .close d => c.close d
  | .conn t T online state quals =>
      c.putTransport t
        (some { T with online := online, connectionState := state, quals := quals })
  | .popMain t T _ rest => c.putTransport t (some { T with ioToMain := rest })
  | .popIo t T _ rest => c.putTransport t (some { T with mainToIo := rest })
  | .post t T p => c.putTransport t (some { T with ioToMain := T.ioToMain ++ [p] })
  | .closePipes t T => c.putTransport t (some { T with pipesOpen := false })
  | .register t type =>
      { (c.putTransport t (some { type := type })).onLoop fun l =>
          (l.fdeventInstall (.transport t) 0).fdeventSet (.transport t) Events.onlyRead with
        transportList := c.transportList ++ [t] }
  | .unlink t reused =>
      { c.onLoop (·.fdeventRemove (.transport t)) with
        cut := c.cut ++ reused
        transportList := c.transportList.erase t }
  | .unregister t _ => c.putTransport t none

section Parts

variable {c : Core} {t : TId} {s : SockId} {a : ASocket} {T : ATransport} {m : AMessage}
  {p : APacket} {d : Drained} {far : Option (TId × ATransport × UInt32)}

/-- An `OKAY` that answers at once leaves all sockets as they are. -/
@[simp] theorem wrteDone_sockets : ((wrteDone t s a T m p).effect c).sockets = c.sockets := by
  simp [effect, Core.sendNew, Core.newPkt, Core.push, Core.putTransport, Core.freePkts,
    Core.note]

@[simp] theorem wrteDone_nextSock :
    ((wrteDone t s a T m p).effect c).nextSock = c.nextSock := by
  simp [effect, Core.sendNew, Core.newPkt, Core.push, Core.putTransport, Core.freePkts,
    Core.note]

@[simp] theorem wrteDone_trackers :
    ((wrteDone t s a T m p).effect c).jdwpTrackersList = c.jdwpTrackersList := by
  simp [effect, Core.sendNew, Core.newPkt, Core.push, Core.putTransport, Core.freePkts,
    Core.note]

theorem wrteDone_transports :
    ((wrteDone t s a T m p).effect c).transports =
      Function.update c.transports t (some { T with
        mainToIo := T.mainToIo ++ [ctlPacket c.nextPkt A_OKAY a.id m.arg0] }) := by
  simp [effect, Core.sendNew, Core.newPkt, Core.push, Core.putTransport, Core.freePkts,
    Core.note]

/-- However the queue was drained, that is all that happens to the sockets. -/
@[simp] theorem drain_sockets :
    ((drain s a d).effect c).sockets = (c.drained s a d).sockets := by
  dsimp only [effect]
  split <;> rfl

@[simp] theorem drain_nextSock : ((drain s a d).effect c).nextSock = c.nextSock := by
  dsimp only [effect]
  split <;> rfl

@[simp] theorem drain_trackers :
    ((drain s a d).effect c).jdwpTrackersList = c.jdwpTrackersList := by
  dsimp only [effect]
  split <;> rfl

@[simp] theorem drainReady_sockets :
    ((drainReady s a d far).effect c).sockets = (c.drained s a d).sockets := by
  cases far <;> rfl

@[simp] theorem drainReady_nextSock :
    ((drainReady s a d far).effect c).nextSock = c.nextSock := by
  cases far <;> rfl

@[simp] theorem drainReady_trackers :
    ((drainReady s a d far).effect c).jdwpTrackersList = c.jdwpTrackersList := by
  cases far <;> rfl

end Parts

/-- The effect of an operation on the packets the handler holds. -/
def handle (w : Work) : Op → List Nat
  | .newPkt => w.core.nextPkt :: w.hand
  | .freePkt x | .lose x => w.hand.erase x
  | .send _ _ p | .sendList _ _ _ p | .collectFirst _ _ p | .wrteQueue _ _ _ _ p
  | .wrteBlock _ _ _ _ p _ | .wrteDone _ _ _ _ _ p | .readWrte _ _ _ _ p | .post _ _ p =>
      w.hand.erase p.addr
  | .popMain _ _ p _ | .popIo _ _ p _ => p.addr :: w.hand
  | _ => w.hand

/-- The effect of an operation. -/
def apply (o : Op) (w : Work) : Work := { core := o.effect w.core, hand := o.handle w }

@[simp] theorem apply_core (o : Op) (w : Work) : (o.apply w).core = o.effect w.core := rfl

@[simp] theorem apply_hand (o : Op) (w : Work) : (o.apply w).hand = o.handle w := rfl

end Op

/-- Sequences of operations, each performed where its guard holds and satisfying `P`. -/
def Ops (P : Work → Op → Prop) : Work → Work → Prop :=
  Trans.Runs (fun w o => (.ok (o.apply w) : Except Unit Work)) fun w o => o.Guard w ∧ P w o

namespace Ops

variable {P : Work → Op → Prop} {w w' w'' : Work}

theorem refl : Ops P w w := Trans.Runs.refl

theorem one (o : Op) (hg : o.Guard w) (hp : P w o) : Ops P w (o.apply w) :=
  Trans.Runs.tail Trans.Runs.refl ⟨hg, hp⟩ rfl

theorem trans (h : Ops P w w') (h' : Ops P w' w'') : Ops P w w'' := Trans.Runs.trans h h'

/-- The invariant rule for sequences of operations. -/
theorem invariant {I : Work → Prop} (h : Ops P w w') (h0 : I w)
    (hop : ∀ x o, I x → o.Guard x → P x o → I (o.apply x)) : I w' := by
  refine Trans.Runs.invariant h h0 fun x o x' hx hok hs => ?_
  obtain rfl : o.apply x = x' := Except.ok.inj hs
  exact hop x o hx hok.1 hok.2

/-- What an invariant says of every operation of a sequence. -/
theorem strengthen {I : Work → Prop} {P' : Work → Op → Prop} (h : Ops P w w') (h0 : I w)
    (hop : ∀ x o, I x → o.Guard x → P x o → I (o.apply x) ∧ P' x o) : Ops P' w w' := by
  refine Trans.Runs.strengthen h h0 fun x o x' hx hok hs => ?_
  obtain rfl : o.apply x = x' := Except.ok.inj hs
  obtain ⟨hI, hP⟩ := hop x o hx hok.1 hok.2
  exact ⟨hI, hok.1, hP⟩

end Ops

end Adbd
