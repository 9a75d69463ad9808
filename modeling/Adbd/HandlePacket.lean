import Adbd.Sockets
import Adbd.CString

/-!
# Packet Handling

`handle_packet` of `adb.c` with the functions it calls, and the callbacks of the smart
socket listener. `HOST` is `0` and `adb_main` sets `auth_enabled` to `0` before the loop
starts, so a `CNXN` brings its transport online at once, `adb_auth_init` never ran, and
`key_list` and `framework_fd` keep their initial values.
-/

namespace Adbd

open Program CString

/-! ### Going online and offline -/

/-- The successor of `s` in a list. -/
def nextIn (s : SockId) : List SockId → Option SockId
  | [] => none
  | x :: l => if x = s then l.head? else nextIn s l

/-- The loop of `run_transport_disconnects` from the node of `cur`, at most `n` times: the
link to the next node is read before the callback runs. -/
def runDisconnectsFrom (t : TId) : Nat → Option SockId → M Unit
  | _, none => pure ()
  | 0, some _ => fault .tooDeep
  | n + 1, some cur => do
      let _ ← getSock cur
      let T ← getTransport t
      let next := nextIn cur T.disconnects
      remoteSocketDisconnect callClose cur
      runDisconnectsFrom t n next

/-- `run_transport_disconnects`. Every callback unlinks its own node. -/
def runTransportDisconnects (t : TId) : M Unit := do
  let T ← getTransport t
  runDisconnectsFrom t T.disconnects.length T.disconnects.head?

/-- `handle_online`. -/
def handleOnline (t : TId) : M Unit := modTransport t fun T => { T with online := true }

/-- `handle_offline`. -/
def handleOffline (t : TId) : M Unit := do
  modTransport t fun T => { T with online := false }
  runTransportDisconnects t

/-! ### Answers -/

/-- `send_ready`, for the local socket `s`. -/
def sendReady (loc rem : UInt32) (t : TId) (s : SockId) : M Unit :=
  sendMsg A_OKAY loc rem (some t) (some s)

/-- `send_close`. -/
def sendClose (loc rem : UInt32) (t : TId) : M Unit := sendMsg A_CLSE loc rem (some t) none

/-- `adb_device_banner`, which `main` changes if it is started with `recovery`. -/
def adbDeviceBanner (recovery : Bool) : List UInt8 :=
  if recovery then ascii ['r', 'e', 'c', 'o', 'v', 'e', 'r', 'y']
  else ascii ['d', 'e', 'v', 'i', 'c', 'e']

/-- `cnxn_props` with their `values`. -/
def cnxnProps : List (List UInt8 × List UInt8) :=
  [(ascii ['r', 'o', '.', 'p', 'r', 'o', 'd', 'u', 'c', 't', '.', 'n', 'a', 'm', 'e'],
      ascii ['o', 'c', 'c', 'a', 'm']),
    (ascii ['r', 'o', '.', 'p', 'r', 'o', 'd', 'u', 'c', 't', '.', 'm', 'o', 'd', 'e', 'l'],
      ascii ['N', 'e', 'x', 'u', 's', ' ', '4']),
    (ascii
        ['r', 'o', '.', 'p', 'r', 'o', 'd', 'u', 'c', 't', '.', 'd', 'e', 'v', 'i', 'c', 'e'],
      ascii ['m', 'a', 'k', 'o'])]

/-- The loop of `fill_connect_data` over the properties: the room that is left. -/
def fillConnectLoop : List (List UInt8 × List UInt8) → Nat → Nat → Acc Nat
  | [], _, remaining => pure remaining
  | (prop, value) :: props, buf, remaining => do
      let len ← snprintf buf remaining (prop ++ 61 :: value ++ [59])
      fillConnectLoop props (buf + len) (remaining - len)

/-- `fill_connect_data`, on the buffer at the offset `buf`. -/
def fillConnectData (banner : List UInt8) (buf bufsize : Nat) : Acc Nat := do
  let len ← snprintf buf bufsize (banner ++ [58, 58])
  let remaining ← fillConnectLoop cnxnProps (buf + len) (bufsize - len)
  pure (bufsize - remaining + 1)

/-- The payload of a `CNXN` of the daemon: what `fill_connect_data` leaves in the buffer of a
packet, up to the length it returns. -/
def connectData (banner : List UInt8) : List UInt8 :=
  let r := (fillConnectData banner 0 MAX_PAYLOAD).run (.ofList [])
  (List.range r.1).map r.2.bytes

/-- `A_VERSION`. -/
def A_VERSION : UInt32 := 0x01000000

/-- `send_connect`. -/
def sendConnect (t : TId) : M Unit := do
  let data := connectData (adbDeviceBanner (← get).io.recovery)
  let p ← getApacket
  sendPacket
    { p with
      msg := { p.msg with
        command := A_CNXN, arg0 := A_VERSION, arg1 := UInt32.ofNat MAX_PAYLOAD,
        dataLength := UInt32.ofNat data.length }
      data := data }
    (some t) none

/-! ### Authentication packets, with authentication off -/

def ADB_AUTH_TOKEN : UInt32 := 1
def ADB_AUTH_SIGNATURE : UInt32 := 2
def ADB_AUTH_RSAPUBLICKEY : UInt32 := 3

/-- `RSANUMBYTES`. -/
def RSANUMBYTES : Nat := 256

/-- `send_auth_request`: the token is random; nothing is sent if there is none. -/
def sendAuthRequest (t : TId) : M Unit := do
  match (← get).io.token with
  | none => pure ()
  | some token => do
      let p ← getApacket
      sendPacket
        { p with
          msg := { p.msg with
            command := A_AUTH, arg0 := ADB_AUTH_TOKEN,
              dataLength := UInt32.ofNat token.length }
          data := token }
        (some t) none

/-- The `A_AUTH` case of `handle_packet`. `adb_auth_nextkey` has no key and
`adb_auth_get_userkey` none to give, so a token request only frees its packet again; a
signature of the right length makes `adb_auth_verify` walk the zeroed `key_list`; without
a framework connection a public key is ignored. -/
def handleAuth (p : APacket) (t : TId) : M Unit := do
  if p.msg.arg0 = ADB_AUTH_TOKEN then do
    let q ← getApacket
    putApacket q
  else if p.msg.arg0 = ADB_AUTH_SIGNATURE then do
    if p.msg.dataLength.toNat = RSANUMBYTES then fault .nullKeyList
    else sendAuthRequest t
  else pure ()

/-! ### handle_packet -/

/-- The C string at the start of a buffer. -/
def cstr (bs : List UInt8) : List UInt8 := bs.takeWhile (· ≠ 0)

/-- `qual_overwrite` with the string at `src`: an empty one is not copied. -/
def qualOverwrite (room src : Nat) : Acc (Option (List UInt8)) := do
  let b ← rd src
  if b = 0 then pure none
  else do
    let value ← strdup room src
    pure (some value)

/-- The keys of the properties in a banner that are kept. -/
def productName : List UInt8 :=
  ascii ['r', 'o', '.', 'p', 'r', 'o', 'd', 'u', 'c', 't', '.', 'n', 'a', 'm', 'e']
def productModel : List UInt8 :=
  ascii ['r', 'o', '.', 'p', 'r', 'o', 'd', 'u', 'c', 't', '.', 'm', 'o', 'd', 'e', 'l']
def productDevice : List UInt8 :=
  ascii ['r', 'o', '.', 'p', 'r', 'o', 'd', 'u', 'c', 't', '.', 'd', 'e', 'v', 'i', 'c', 'e']

/-- The body of the loop of `parse_banner`, for the token at `key`. -/
def parseProp (room key : Nat) (q : Qualifiers) : Acc Qualifiers := do
  match ← strchr 61 room key with
  | none => pure q
  | some cp => do
      wr cp 0
      if ← strcmpEq productName key then do
        let value ← qualOverwrite room (cp + 1)
        pure { q with product := value }
      else if ← strcmpEq productModel key then do
        let value ← qualOverwrite room (cp + 1)
        pure { q with model := value }
      else if ← strcmpEq productDevice key then do
        let value ← qualOverwrite room (cp + 1)
        pure { q with device := value }
      else pure q

/-- The loop of `parse_banner` over the tokens from `s` on, at most `n` times. -/
def parseProps (room : Nat) : Nat → Nat → Qualifiers → Acc Qualifiers
  | 0, _, q => pure q
  | n + 1, s, q => do
      match ← strtokR 59 room s with
      | none => pure q
      | some (key, save) => do
          let q ← parseProp room key q
          parseProps room n save q

/-- The end of `parse_banner`: the banner's text before the first colon names the kind of
system. -/
def bannerType : Acc ConnState := do
  if ← strcmpEq (ascii ['b', 'o', 'o', 't', 'l', 'o', 'a', 'd', 'e', 'r']) 0 then
    pure .bootloader
  else if ← strcmpEq (ascii ['d', 'e', 'v', 'i', 'c', 'e']) 0 then pure .device
  else if ← strcmpEq (ascii ['r', 'e', 'c', 'o', 'v', 'e', 'r', 'y']) 0 then pure .recovery
  else if ← strcmpEq (ascii ['s', 'i', 'd', 'e', 'l', 'o', 'a', 'd']) 0 then pure .sideload
  else pure .host

/-- The first part of `parse_banner`: the properties behind the second colon. The first one
ends the name of the kind of system, and nothing is done with the field between them. -/
def parseFields (room : Nat) (q : Qualifiers) : Acc Qualifiers := do
  match ← strchr 58 room 0 with
  | none => pure q
  | some cp => do
      wr cp 0
      match ← strchr 58 room (cp + 1) with
      | none => pure q
      | some cp => parseProps room room (cp + 1) q

/-- `parse_banner`, on the banner at the start of a buffer with `room` bytes up to its end:
the new `connection_state` and qualifiers. -/
def parseBanner (room : Nat) (q : Qualifiers) : Acc (ConnState × Qualifiers) := do
  let q ← parseFields room q
  let state ← bannerType
  pure (state, q)

/-- `parse_banner(banner, t)`. The buffer is the packet's, with whatever is behind the
banner in it; past the end of the list there is a zero. -/
def ATransport.parseBanner (T : ATransport) (banner : List UInt8) : ATransport :=
  let r := ((Adbd.parseBanner (banner.length + 1) T.quals).run (.ofList banner)).1
  { T with connectionState := r.1, quals := r.2 }

/-- The `A_SYNC` case. -/
def handleSync (p : APacket) (t : TId) : M Unit := do
  if p.msg.arg0 ≠ 0 then sendPacket p (some t) none
  else do
    modTransport t fun T => { T with connectionState := .offline }
    handleOffline t
    sendPacket p (some t) none

/-- The `A_CNXN` case. -/
def handleCnxn (p : APacket) (t : TId) : M Unit := do
  let T ← getTransport t
  if T.connectionState ≠ .offline then do
    modTransport t fun T => { T with connectionState := .offline }
    handleOffline t
  else pure ()
  modTransport t fun T => T.parseBanner p.data
  handleOnline t
  sendConnect t

/-- Make the local socket `s` and a new remote socket the two ends of a stream. -/
def attachRemote (s : SockId) (id : UInt32) (t : TId) : M Unit := do
  let r ← createRemoteSocket id t
  modSock s fun a => { a with peer := some r }
  modSock r fun b => { b with peer := some s }

/-- The `A_OPEN` case, on an online transport. -/
def handleOpen (p : APacket) (t : TId) : M Unit := do
  match ← createLocalServiceSocket (cstr (p.data.take (p.msg.dataLength.toNat - 1))) with
  | none => sendClose 0 p.msg.arg0 t
  | some s => do
      attachRemote s p.msg.arg0 t
      let a ← getSock s
      sendReady a.id p.msg.arg0 t s
      note (.opened s)
      callReady s

/-- The `A_OKAY` case, on an online transport. -/
def handleOkay (p : APacket) (t : TId) : M Unit := do
  match ← findLocalSocket p.msg.arg1 with
  | none => pure ()
  | some s => do
      note (.delivered t s p.msg)
      let a ← getSock s
      if a.peer = none then do
        attachRemote s p.msg.arg0 t
        note (.opened s)
      else pure ()
      callReady s

/-- The `A_CLSE` case, on an online transport. -/
def handleClse (p : APacket) (t : TId) : M Unit := do
  match ← findLocalSocket p.msg.arg1 with
  | none => pure ()
  | some s => do
      note (.delivered t s p.msg)
      callClose s

/-- The payload of a `WRTE` packet goes to the socket that was found; if it is taken at
once the answer is `OKAY`. -/
def deliverWrte (p : APacket) (t : TId) (s : SockId) : M Unit := do
  note (.delivered t s p.msg)
  let r ← callEnqueue s { p with len := p.msg.dataLength.toNat }
  if r = 0 then do
    let a ← getSock s
    sendReady a.id p.msg.arg0 t s
  else pure ()

/-- The `A_WRTE` case, on an online transport. The packet belongs to the socket that is
found, and is freed here only if there is none. -/
def handleWrte (p : APacket) (t : TId) : M Unit := do
  match ← findLocalSocket p.msg.arg1 with
  | none => putApacket p
  | some s => deliverWrte p t s

/-- The cases of `handle_packet` after which its last line frees the packet. -/
def handleCommand (p : APacket) (t : TId) (T : ATransport) : M Unit := do
  if p.msg.command = A_CNXN then handleCnxn p t
  else if p.msg.command = A_AUTH then handleAuth p t
  else if p.msg.command = A_OPEN then
    if T.online then handleOpen p t else pure ()
  else if p.msg.command = A_OKAY then
    if T.online then handleOkay p t else pure ()
  else if p.msg.command = A_CLSE then
    if T.online then handleClse p t else pure ()
  else pure ()

/-- `handle_packet`. -/
def handlePacket (p : APacket) (t : TId) : M Unit := do
  let T ← getTransport t
  if p.msg.command = A_SYNC then handleSync p t
  else if p.msg.command = A_WRTE then
    if T.online then handleWrte p t else putApacket p
  else do
    handleCommand p t T
    putApacket p

/-! ### Other callbacks of the main loop -/

/-- `ss_listener_event_func`. -/
def ssListenerEventFunc (ev : Events) : M Unit := do
  if ev.read then
    match (← get).io.accepted with
    | none => pure ()
    | some fd => do
        let s ← createLocalSocketPair fd fd
        connectToSmartsocket s
  else pure ()

/-- `transport_socket_events`: one packet from the pipe of the output thread. The pipe
is non-blocking, so reading an empty or closed one fails and nothing happens. -/
def transportSocketEvents (t : TId) (ev : Events) : M Unit := do
  if ev.read then do
    let T ← getTransport t
    match T.ioToMain with
    | [] => pure ()
    | p :: rest =>
        if (← get).canRead t T then do
          modTransport t fun T => { T with ioToMain := rest }
          handlePacket p t
        else pure ()
  else pure ()

/-- A JDWP process connecting, identifying itself or going away: the list of pids
changes and the trackers are told. -/
def jdwpProcessEvent (ev : Events) : M Unit := do
  if ev.read then do
    modify fun c => { c with jdwpList := c.io.pids }
    jdwpProcessListUpdated
  else pure ()

/-- `fdevent_subproc_event_func`: the record `fd_table` has for the reported descriptor is
marked `force_eof`, and unless `FIONREAD` says that data is left its callback is made at
once with `FDE_READ`, whatever its interest. The descriptor was a shell's; by now it may
belong to another socket or to a transport. -/
def fdeventSubprocEventFunc (ev : Events) : M Unit := do
  let io := (← get).io
  match ev.read, io.subproc with
  | true, some k => do
      let f := (← get).loop.fdes k
      if f.active then do
        modLoop fun l => l.put k { l.fdes k with forceEof := true }
        if io.rcount ≠ 0 then pure ()
        else if f.pending then
          modLoop fun l =>
            l.put k { l.fdes k with events := (l.fdes k).events.union .onlyRead }
        else do
          modLoop fun l => l.put k { l.fdes k with events := {} }
          match k with
          | .sock s => localSocketEventFunc s (f.events.union .onlyRead)
          | .transport t => transportSocketEvents t (f.events.union .onlyRead)
          | _ => pure ()
      else pure ()
  | _, _ => pure ()

end Adbd
