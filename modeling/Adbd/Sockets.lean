import Adbd.Core

/-!
# Sockets

The functions of `sockets.c`, and the JDWP sockets of `jdwp_service.c`. Functions called
through the pointers of an `asocket` are dispatched on its `SockKind` by `callClose`,
`callReady` and `callEnqueue`.

`close` functions call each other through the peer. `callClose` takes the function for
the inner calls as a parameter and ties the knot with a bound on the depth; a socket's
peer is detached before it is closed, so the depth never exceeds `closeDepth` (this is
proved, see `Adbd.Closing`).

`socket_list_lock` is held for the whole of `local_socket_close` and of
`close_all_sockets`; each of them is one step of the model, so the lock itself is not
represented, and `local_socket_close` is `local_socket_close_locked`.
-/

namespace Adbd

open Program

/-! ### The lists of local sockets -/

/-- The walk of `find_local_socket` along the list. -/
def findFrom (id : UInt32) : List SockId → M (Option SockId)
  | [] => pure none
  | s :: l => do
      let a ← getSock s
      if a.id = id then pure (some s) else findFrom id l

/-- `find_local_socket`. -/
def findLocalSocket (id : UInt32) : M (Option SockId) := do
  findFrom id (← get).localSocketList

/-- `insert_local_socket(s, &local_socket_list)`. -/
def insertLocal (s : SockId) : M Unit := do
  touch (← get).localSocketList.getLast?.toList
  modify fun c => { c with localSocketList := c.localSocketList ++ [s] }

/-- `insert_local_socket(s, &local_socket_closing_list)`. -/
def insertClosing (s : SockId) : M Unit := do
  touch (← get).localSocketClosingList.getLast?.toList
  modify fun c => { c with localSocketClosingList := c.localSocketClosingList ++ [s] }

/-- `install_local_socket`. -/
def installLocalSocket (s : SockId) : M Unit := do
  let c ← get
  modSock s fun a => { a with id := c.localSocketNextId }
  modify fun c => { c with localSocketNextId := c.localSocketNextId + 1 }
  insertLocal s

/-- `remove_socket`: unlink the socket from the list it is on, if any, and clear its id. -/
def removeSocket (s : SockId) : M Unit := do
  let _ ← getSock s
  let c ← get
  if s ∈ c.localSocketList then do
    touch (adjacent s c.localSocketList)
    modify fun c => { c with localSocketList := c.localSocketList.erase s }
    modSock s fun a => { a with id := 0 }
  else if s ∈ c.localSocketClosingList then do
    touch (adjacent s c.localSocketClosingList)
    modify fun c => { c with localSocketClosingList := c.localSocketClosingList.erase s }
    modSock s fun a => { a with id := 0 }
  else pure ()

/-! ### Closing -/

/-- `local_socket_destroy`. -/
def localSocketDestroy (s : SockId) : M Unit := do
  let a ← getSock s
  -- fdevent_remove closes the descriptor of an active record
  let c ← get
  if (c.loop.fdes (.sock s)).active then note (.closedFd a.fd) else pure ()
  modLoop (·.fdeventRemove (.sock s))
  if a.writeFd = a.fd then pure () else note (.closedFd a.writeFd)
  putApackets a.queue
  removeSocket s
  freeSock s
  if a.exitOnClose then fault .exit else pure ()

/-- `local_socket_close_locked`, with `close` for `s->peer->close`. -/
def localSocketCloseLocked (close : SockId → M Unit) (s : SockId) : M Unit := do
  let a ← getSock s
  match a.peer with
  | some q => do
      modSock q fun b => { b with peer := none }
      close q
      modSock s fun a => { a with peer := none }
  | none => pure ()
  let a ← getSock s
  if a.closing || a.queue.isEmpty then localSocketDestroy s
  else do
    modSock s fun a => { a with closing := true }
    modLoop (·.fdeventDel (.sock s) Events.onlyRead)
    removeSocket s
    insertClosing s

/-- `local_socket_close_notify`. -/
def localSocketCloseNotify (close : SockId → M Unit) (s : SockId) : M Unit := do
  let a ← getSock s
  modSock s fun a => { a with kind := .localSocket }
  note (.failMsg a.fd .closed)
  close s

/-- `remote_socket_close`. -/
def remoteSocketClose (close : SockId → M Unit) (s : SockId) : M Unit := do
  let a ← getSock s
  let p ← getApacket
  let arg0 ←
    match a.peer with
    | some q => do
        let b ← getSock q
        modSock q fun b => { b with peer := none }
        close q
        pure b.id
    | none => pure 0
  sendPacket { p with msg := { p.msg with command := A_CLSE, arg0 := arg0, arg1 := a.id } }
    a.transport none
  removeTransportDisconnect a.transport s
  freeSock s

/-- `remote_socket_disconnect`. -/
def remoteSocketDisconnect (close : SockId → M Unit) (s : SockId) : M Unit := do
  let a ← getSock s
  match a.peer with
  | some q => do
      modSock q fun b => { b with peer := none }
      close q
  | none => pure ()
  removeTransportDisconnect a.transport s
  freeSock s

/-- `smart_socket_close`. -/
def smartSocketClose (close : SockId → M Unit) (s : SockId) : M Unit := do
  let a ← getSock s
  putApackets (a.queue.head?).toList
  match a.peer with
  | some q => do
      modSock q fun b => { b with peer := none }
      close q
      modSock s fun a => { a with peer := none }
  | none => pure ()
  freeSock s

/-- `jdwp_socket_close`. -/
def jdwpSocketClose (close : SockId → M Unit) (s : SockId) : M Unit := do
  let a ← getSock s
  removeSocket s
  match a.peer with
  | some q => do
      modSock q fun b => { b with peer := none }
      close q
  | none => pure ()
  freeSock s

/-- `jdwp_tracker_close`. -/
def jdwpTrackerClose (close : SockId → M Unit) (s : SockId) : M Unit := do
  let a ← getSock s
  match a.peer with
  | some q => do
      modSock q fun b => { b with peer := none }
      close q
  | none => pure ()
  removeSocket s
  touch (adjacent s (← get).jdwpTrackersList)
  modify fun c => { c with jdwpTrackersList := c.jdwpTrackersList.erase s }
  freeSock s

/-- `s->close(s)`, with `close` for the calls it makes in turn. -/
def callCloseWith (close : SockId → M Unit) (s : SockId) : M Unit := do
  let a ← getSock s
  match a.kind with
  | .localSocket => localSocketCloseLocked close s
  | .localNotify => localSocketCloseNotify close s
  | .remoteSocket => remoteSocketClose close s
  | .smartSocket => smartSocketClose close s
  | .jdwpSocket => jdwpSocketClose close s
  | .jdwpTracker => jdwpTrackerClose close s

/-- `s->close(s)` with calls nested at most `n` deep. -/
def callCloseDepth : Nat → SockId → M Unit
  | 0, _ => fault .tooDeep
  | n + 1, s => callCloseWith (callCloseDepth n) s

/-- The depth `close` calls nest to. -/
def closeDepth : Nat := 3

/-- `s->close(s)`. -/
def callClose (s : SockId) : M Unit := callCloseDepth closeDepth s

/-- `s->transport == t || (s->peer && s->peer->transport == t)`. -/
def belongsTo (t : TId) (s : SockId) : M Bool := do
  let a ← getSock s
  if a.transport = some t then pure true
  else
    match a.peer with
    | none => pure false
    | some q => do
        let b ← getSock q
        pure (b.transport = some t)

/-- The `for` loop of `close_all_sockets` up to the first socket of `t`. -/
def firstOf (t : TId) : List SockId → M (Option SockId)
  | [] => pure none
  | s :: l => do
      if ← belongsTo t s then pure (some s) else firstOf t l

/-- The restart loop of `close_all_sockets`, at most `n` times. -/
def closeAllLoop (t : TId) : Nat → M Unit
  | 0 => fault .tooDeep
  | n + 1 => do
      match ← firstOf t (← get).localSocketList with
      | none => pure ()
      | some s => do
          localSocketCloseLocked (callCloseDepth closeDepth) s
          closeAllLoop t n

/-- `close_all_sockets`. Every restart takes one socket off `local_socket_list`. -/
def closeAllSockets (t : TId) : M Unit := do
  closeAllLoop t ((← get).localSocketList.length + 1)

/-! ### Ready -/

/-- `local_socket_ready`. -/
def localSocketReady (s : SockId) : M Unit := modLoop (·.fdeventAdd (.sock s) Events.onlyRead)

/-- `local_socket_ready_notify`. -/
def localSocketReadyNotify (s : SockId) : M Unit := do
  let a ← getSock s
  modSock s fun a => { a with kind := .localSocket }
  note (.status a.fd true)
  localSocketReady s

/-- `s->peer`, followed although it may be null. -/
def peerOf (s : SockId) : M SockId := do
  let a ← getSock s
  match a.peer with
  | some q => pure q
  | none => fault (.nullPeer s)

/-- `remote_socket_ready`. -/
def remoteSocketReady (s : SockId) : M Unit := do
  let a ← getSock s
  let q ← peerOf s
  let b ← getSock q
  sendMsg A_OKAY b.id a.id a.transport (some q)

/-- `remote_socket_enqueue`. -/
def remoteSocketEnqueue (s : SockId) (p : APacket) : M Int := do
  let a ← getSock s
  let q ← peerOf s
  let b ← getSock q
  sendPacket
    { p with msg := { p.msg with
        command := A_WRTE, arg0 := b.id, arg1 := a.id, dataLength := UInt32.ofNat p.len } }
    a.transport (some q)
  pure 1

/-! ### JDWP process lists -/

/-- The characters of a list as bytes. -/
def ascii (cs : List Char) : List UInt8 := cs.map fun ch => UInt8.ofNat ch.toNat

/-- `"%d\n"` of a non-negative number. -/
def pidLine (pid : Nat) : List UInt8 := ascii (Nat.toDigits 10 pid) ++ [10]

/-- The loop of `jdwp_process_list` with `room` bytes left: negative pids are skipped, and
the loop stops at the first line that does not fit with its terminator. -/
def jdwpProcessListFrom : List Int → Nat → List UInt8
  | [], _ => []
  | pid :: l, room =>
      if pid < 0 then jdwpProcessListFrom l room
      else
        let line := pidLine pid.toNat
        if line.length ≥ room then [] else line ++ jdwpProcessListFrom l (room - line.length)

/-- `jdwp_process_list`. -/
def jdwpProcessList (pids : List Int) (bufferlen : Nat) : List UInt8 :=
  jdwpProcessListFrom pids bufferlen

/-- `"%04x"` of a length. -/
def hex4 (n : Nat) : List UInt8 :=
  let ds := Nat.toDigits 16 n
  ascii (List.replicate (4 - ds.length) '0' ++ ds)

/-- `jdwp_process_list_msg`. -/
def jdwpProcessListMsg (pids : List Int) (bufferlen : Nat) : List UInt8 :=
  let text := jdwpProcessList pids (bufferlen - 4)
  (hex4 text.length).take 4 ++ text

/-- A packet carrying `bs`. -/
def dataPacket (bs : List UInt8) : M APacket := do
  let p ← getApacket
  pure { p with data := bs, len := bs.length }

/-! ### The smart socket -/

/-- The value of a hexadecimal digit. -/
def hexDigit (b : UInt8) : Option UInt32 :=
  if 48 ≤ b ∧ b ≤ 57 then some (b.toUInt32 - 48)
  else if 97 ≤ b ∧ b ≤ 102 then some (b.toUInt32 - 97 + 10)
  else if 65 ≤ b ∧ b ≤ 70 then some (b.toUInt32 - 65 + 10)
  else none

/-- The loop of `unhex`, with the number read so far. -/
def unhexFrom : UInt32 → List UInt8 → UInt32
  | n, [] => n
  | n, b :: bs =>
      match hexDigit b with
      | some c => unhexFrom ((n <<< 4) ||| c) bs
      | none => 0xffffffff

/-- `unhex`. -/
def unhex (bs : List UInt8) : UInt32 := unhexFrom 0 bs

/-- The loop of `acquire_one_transport(CS_ANY, kTransportAny, NULL, ..)` over the rest of
the list, with the transport found so far and the error text. -/
def acquireFrom : List TId → Option TId → FailReason → M (Option TId × FailReason)
  | [], result, err => pure (result, err)
  | t :: l, result, err => do
      let T ← getTransport t
      if T.connectionState = .noperm then acquireFrom l result .insufficientPermissions
      else
        match result with
        | some _ => pure (none, .moreThanOne)
        | none => acquireFrom l (some t) err

/-- `acquire_one_transport(CS_ANY, kTransportAny, NULL, &error)`: the only transport of
the list that is accessible, unless it is offline. -/
def acquireOneTransport : M (Option TId × FailReason) := do
  let (result, err) ← acquireFrom (← get).transportList none .deviceNotFound
  match result with
  | none => pure (none, err)
  | some t => do
      let T ← getTransport t
      if T.connectionState = .offline then pure (none, .deviceOffline) else pure (some t, err)

/-- `connect_to_remote`. -/
def connectToRemote (s : SockId) (destination : List UInt8) : M Unit := do
  let a ← getSock s
  let p ← getApacket
  let len := destination.length + 1
  if len > MAX_PAYLOAD - 1 then fault .fatal
  else
    sendPacket
      { p with
        msg := { p.msg with command := A_OPEN, arg0 := a.id, dataLength := UInt32.ofNat len }
        data := destination ++ [0] }
      a.transport none

/-- The label `fail:` of `smart_socket_enqueue`. -/
def smartSocketFail (s : SockId) : M Int := do
  callClose s
  pure (-1)

/-- The end of `smart_socket_enqueue`: rig the peer, detach from it, request the
connection, tear the smart socket down. -/
def smartSocketConnect (s : SockId) (t : TId) (destination : List UInt8) : M Int := do
  let q ← peerOf s
  modSock q fun b => { b with kind := .localNotify, peer := none, transport := some t }
  connectToRemote q destination
  modSock s fun a => { a with peer := none }
  callClose s
  pure 1

/-- The first part of `smart_socket_enqueue`: collect the packet, unless it does not fit
behind what was collected before. -/
def smartSocketCollect (s : SockId) (p : APacket) : M (Option APacket) := do
  let a ← getSock s
  match a.queue with
  | [] => do
      modSock s fun a => { a with queue := [p] }
      pure (some p)
  | p₀ :: q =>
      if p₀.len + p.len > MAX_PAYLOAD then do
        putApacket p
        pure none
      else do
        let p₁ := { p₀ with
          data := p₀.data.take p₀.len ++ p.data.take p.len, len := p₀.len + p.len }
        modSock s fun a => { a with queue := p₁ :: q }
        putApacket p
        pure (some p₁)

/-- The transport of a request: the one that was named, or the only one there is. -/
def smartSocketTransport (s : SockId) : M (Option TId × FailReason) := do
  let a ← getSock s
  match a.transport with
  | some t => pure (some t, FailReason.deviceNotFound)
  | none => acquireOneTransport

/-- Tell the client why its request fails, and close. -/
def smartSocketRefuse (s : SockId) (err : FailReason) : M Int := do
  let q ← peerOf s
  let b ← getSock q
  note (.failMsg b.fd err)
  smartSocketFail s

/-- The second part of `smart_socket_enqueue`: decode what was collected. -/
def smartSocketDecode (s : SockId) (p : APacket) : M Int := do
  if p.len < 4 then pure 0
  else
    let len := (unhex (p.data.take 4)).toNat
    if len < 1 ∨ len > 1024 then smartSocketFail s
    else if len + 4 > p.len then pure 0
    else do
      let (t, err) ← smartSocketTransport s
      modSock s fun a => { a with transport := t }
      match t with
      | none => smartSocketRefuse s err
      | some t => do
          let T ← getTransport t
          if T.connectionState = .offline then smartSocketRefuse s .deviceOfflineX
          else smartSocketConnect s t (((p.data.drop 4).take len).takeWhile (· ≠ 0))

/-- `smart_socket_enqueue`. -/
def smartSocketEnqueue (s : SockId) (p : APacket) : M Int := do
  match ← smartSocketCollect s p with
  | none => smartSocketFail s
  | some p => smartSocketDecode s p

/-! ### Enqueue -/

/-- Take `adb_write` results off those of the current handler. -/
def setWrites (ws : List WriteRes) : M Unit :=
  modify fun c => { c with io := { c.io with writes := ws } }

/-- The label `enqueue:` of `local_socket_enqueue`: append and watch for `FDE_WRITE`. -/
def linkTail (s : SockId) (p : APacket) : M Unit := do
  modSock s fun a => { a with queue := a.queue ++ [p] }
  modLoop (·.fdeventAdd (.sock s) Events.onlyWrite)

/-- `local_socket_enqueue`. On a write error the socket is closed and the packet is
neither queued nor freed. -/
def localSocketEnqueue (s : SockId) (p : APacket) : M Int := do
  let a ← getSock s
  let p := { p with ptr := 0 }
  note (.taken s p.bytes)
  if a.queue ≠ [] then do
    linkTail s p
    pure 1
  else do
    let r := writeLoop (← get).io.writes p.bytes
    setWrites r.left
    note (.wrote s r.bytes)
    match r.verdict with
    | .failed => do
        note (.writeFailed s)
        callClose s
        pure 1
    | .drained => do
        note (.completed s)
        putApacket p
        pure 0
    | .wouldBlock => do
        linkTail s (p.advance r.bytes.length)
        pure 1

/-- `jdwp_socket_enqueue` and `jdwp_tracker_enqueue`, which are the same. -/
def jdwpSocketEnqueue (s : SockId) (p : APacket) : M Int := do
  putApacket p
  let q ← peerOf s
  callClose q
  pure (-1)

/-- `s->enqueue(s, p)`. -/
def callEnqueue (s : SockId) (p : APacket) : M Int := do
  let a ← getSock s
  match a.kind with
  | .localSocket | .localNotify => localSocketEnqueue s p
  | .remoteSocket => remoteSocketEnqueue s p
  | .smartSocket => smartSocketEnqueue s p
  | .jdwpSocket | .jdwpTracker => jdwpSocketEnqueue s p

/-- `jdwp_socket_ready`: the list on the first call, the end of the stream on the next. -/
def jdwpSocketReady (s : SockId) : M Unit := do
  let a ← getSock s
  let q ← peerOf s
  if a.pass then callClose q
  else do
    let p ← dataPacket (jdwpProcessList (← get).jdwpList MAX_PAYLOAD)
    let _ ← callEnqueue q p
    modSock s fun a => { a with pass := true }

/-- `jdwp_tracker_ready`. -/
def jdwpTrackerReady (s : SockId) : M Unit := do
  let a ← getSock s
  if a.needUpdate then do
    let p ← dataPacket (jdwpProcessListMsg (← get).jdwpList MAX_PAYLOAD)
    modSock s fun a => { a with needUpdate := false }
    let q ← peerOf s
    let _ ← callEnqueue q p
  else pure ()

/-- `s->ready(s)`. -/
def callReady (s : SockId) : M Unit := do
  let a ← getSock s
  match a.kind with
  | .localSocket => localSocketReady s
  | .localNotify => localSocketReadyNotify s
  | .remoteSocket => remoteSocketReady s
  | .smartSocket => pure ()
  | .jdwpSocket => jdwpSocketReady s
  | .jdwpTracker => jdwpTrackerReady s

/-- The loop of `jdwp_process_list_updated` over the trackers. -/
def jdwpUpdateFrom (msg : List UInt8) : List SockId → M Unit
  | [] => pure ()
  | s :: l => do
      let p ← dataPacket msg
      let q ← peerOf s
      let _ ← callEnqueue q p
      jdwpUpdateFrom msg l

/-- `jdwp_process_list_updated`. -/
def jdwpProcessListUpdated : M Unit := do
  let c ← get
  jdwpUpdateFrom (jdwpProcessListMsg c.jdwpList 1024) c.jdwpTrackersList

/-! ### Events on the descriptor of a local socket -/

/-- The `FDE_WRITE` branch of `local_socket_event_func`. -/
def localSocketWriteEvent (s : SockId) : M Unit := do
  let a ← getSock s
  let d := drain (← get).io.writes a.queue
  note (.wrote s d.bytes)
  d.done.forM fun _ => note (.completed s)
  putApackets d.done
  modSock s fun a => { a with queue := d.queue }
  match d.verdict with
  | .wouldBlock => pure ()
  | .failed => do
      note (.writeFailed s)
      callClose s
  | .drained =>
      if a.closing then callClose s
      else do
        modLoop (·.fdeventDel (.sock s) Events.onlyWrite)
        let q ← peerOf s
        callReady q

/-- The loop `while(avail > 0) { r = adb_read(..); .. }` of the `FDE_READ` branch, with the
bytes read so far: the bytes read, whether the last result ended the input (`is_eof`), and
the last value of `r`. -/
def readLoop : List ReadRes → Nat → List UInt8 → List UInt8 × Bool × Int
  | _, 0, got => (got, false, 1)
  | [], _ + 1, got => (got, false, -1)
  | .eagain :: _, _ + 1, got => (got, false, -1)
  | .eof :: _, _ + 1, got => (got, true, 0)
  | .error :: _, _ + 1, got => (got, true, -1)
  | .data [] :: _, _ + 1, got => (got, true, 0)
  | .data (b :: bs) :: rs, avail + 1, got =>
      readLoop rs (avail + 1 - ((b :: bs).take (avail + 1)).length)
        (got ++ (b :: bs).take (avail + 1))

/-- The middle of the `FDE_READ` branch: hand what was read to the peer, if there is
anything and there is one. A positive return of `enqueue` stops the reading. -/
def localSocketPass (s : SockId) (p : APacket) (got : List UInt8) (peer : Option SockId)
    (r : Int) : M Int :=
  match got, peer with
  | [], _ | _, none => do
      putApacket p
      pure r
  | got, some q => do
      let r ← callEnqueue q { p with data := got, len := got.length }
      if r > 0 then modLoop (·.fdeventDel (.sock s) Events.onlyRead) else pure ()
      pure r

/-- The end of the `FDE_READ` branch. -/
def localSocketEof (s : SockId) (isEof : Bool) (r : Int) : M Unit := do
  let c ← get
  if ((c.loop.fdes (.sock s)).forceEof ∧ r = 0) ∨ isEof then callClose s else pure ()

/-- The `FDE_READ` branch of `local_socket_event_func`. -/
def localSocketReadEvent (s : SockId) : M Unit := do
  let p ← getApacket
  let (got, isEof, r) := readLoop (← get).io.reads MAX_PAYLOAD []
  let a ← getSock s
  let r ← localSocketPass s p got a.peer r
  -- a negative return of enqueue on a peer means that this socket was closed on the way
  if got ≠ [] ∧ a.peer ≠ none ∧ r < 0 then pure () else localSocketEof s isEof r

/-- `local_socket_event_func`. -/
def localSocketEventFunc (s : SockId) (ev : Events) : M Unit := do
  if ev.write then localSocketWriteEvent s
  else if ev.read then localSocketReadEvent s
  else pure ()

/-! ### Creating sockets -/

/-- `create_local_socket_pair`; `create_local_socket(fd)` is the case of equal
descriptors. -/
def createLocalSocketPair (readFd writeFd : Nat) : M SockId := do
  let s ← allocSock { kind := .localSocket, fd := readFd, writeFd := writeFd }
  installLocalSocket s
  modLoop (·.fdeventInstall (.sock s) readFd)
  pure s

/-- `create_remote_socket`. -/
def createRemoteSocket (id : UInt32) (t : TId) : M SockId := do
  let s ← allocSock { kind := .remoteSocket, id := id, transport := some t }
  addTransportDisconnect t s
  pure s

/-- `create_jdwp_service_socket`. -/
def createJdwpServiceSocket : M SockId := do
  let s ← allocSock { kind := .jdwpSocket }
  installLocalSocket s
  pure s

/-- `create_jdwp_tracker_service_socket`. -/
def createJdwpTrackerServiceSocket : M SockId := do
  let s ← allocSock { kind := .jdwpTracker, needUpdate := true }
  touch (← get).jdwpTrackersList.getLast?.toList
  modify fun c => { c with jdwpTrackersList := c.jdwpTrackersList ++ [s] }
  installLocalSocket s
  pure s

/-- The names of the services with their own sockets, and the prefixes that set
`exit_on_close`. -/
def jdwpName : List UInt8 := ascii ['j', 'd', 'w', 'p']
def trackJdwpName : List UInt8 := ascii ['t', 'r', 'a', 'c', 'k', '-', 'j', 'd', 'w', 'p']
def rootPrefix : List UInt8 := ascii ['r', 'o', 'o', 't', ':']
def usbPrefix : List UInt8 := ascii ['u', 's', 'b', ':']
def tcpipPrefix : List UInt8 := ascii ['t', 'c', 'p', 'i', 'p', ':']

/-- Whether `create_local_service_socket` sets `exit_on_close`. -/
def exitsOnClose (name : List UInt8) (uid : Nat) : Bool :=
  (rootPrefix.isPrefixOf name && uid != 0) || usbPrefix.isPrefixOf name ||
    tcpipPrefix.isPrefixOf name

/-- `create_local_service_socket`. What `service_to_fd` returns is up to the system. -/
def createLocalServiceSocket (name : List UInt8) : M (Option SockId) := do
  if name = jdwpName then some <$> createJdwpServiceSocket
  else if name = trackJdwpName then some <$> createJdwpTrackerServiceSocket
  else do
    let io := (← get).io
    match io.service with
    | none => pure none
    | some (rfd, wfd) => do
        let s ← createLocalSocketPair rfd wfd
        if exitsOnClose name io.uid then modSock s fun a => { a with exitOnClose := true }
        else pure ()
        pure (some s)

/-- `connect_to_smartsocket`. -/
def connectToSmartsocket (s : SockId) : M Unit := do
  let ss ← allocSock { kind := .smartSocket }
  modSock s fun a => { a with peer := some ss }
  modSock ss fun a => { a with peer := some s }
  callReady s

end Adbd
