import Adbd.OpLogic

/-!
# Closing a Stream

The `close` functions of the six kinds of sockets call each other through the peer. Here
it is proved once and for all what such a call does on consistent data: it closes the
stream, as `Core.close` describes it, whichever end it starts from and in whichever order
the two ends are taken apart; and it never recurses deeper than `closeDepth`.

## Main results

* `Does.closeEnd`, `Does.closeFar`: `s->close(s)` on either end of a stream.
* `Does.closeLocked`: the way `close_all_sockets` does it.
* `Does.disconnect`: the way `run_transport_disconnects` does it.
-/

namespace Adbd

open Program Custody

variable {c : Core} {s q : SockId} {a b : ASocket} {E : Fault → Prop}

/-- What unlinking a local end relies on: its neighbours are live, and it is on one list
at most. -/
structure Listed (c : Core) (s : SockId) (a : ASocket) : Prop where
  self : c.sockets s = some a
  list : ∀ x ∈ c.localSocketList, c.sockets x ≠ none
  closing : ∀ x ∈ c.localSocketClosingList, c.sockets x ≠ none
  once : s ∈ c.localSocketList → s ∉ c.localSocketClosingList

/-- What destroying a local end relies on besides: its packets are live. -/
structure EndOk (c : Core) (s : SockId) (a : ASocket) : Prop extends Listed c s a where
  nodup : (addrs a.queue).Nodup
  live : ∀ x ∈ addrs a.queue, c.livePkts x = true

/-- The memory after `remove_socket`. -/
def Core.unlisted (c : Core) (s : SockId) (a : ASocket) : Core :=
  { c.putSock s (some a) with
    localSocketList := c.localSocketList.erase s
    localSocketClosingList := c.localSocketClosingList.erase s }

/-- `remove_socket`: the socket is on neither list, and a socket that was on one has lost
its id. -/
theorem wp_removeSocket {Q : Unit → Core → Prop} (h : Listed c s a)
    (hQ : ∀ id, (s ∈ c.localSocketList → id = 0) → Q () (c.unlisted s { a with id := id })) :
    wp (removeSocket s) Q E c := by
  have hs := h.self
  rw [removeSocket, wp_bind]
  refine (wp_getSock_of hs).mpr ?_
  rw [wp_bind, wp_get]
  by_cases hl : s ∈ c.localSocketList
  · have hc := h.once hl
    rw [if_pos hl, wp_bind]
    refine wp_touch (fun x hx hn => absurd hn (h.list x (mem_of_mem_adjacent hx))) ?_
    rw [wp_bind, wp_modify]
    refine (wp_modSock_of (by exact hs)).mpr ?_
    have hq := hQ 0 fun _ => rfl
    rw [Core.unlisted, List.erase_of_not_mem hc] at hq
    exact hq
  · rw [if_neg hl]
    by_cases hc : s ∈ c.localSocketClosingList
    · rw [if_pos hc, wp_bind]
      refine wp_touch (fun x hx hn => absurd hn (h.closing x (mem_of_mem_adjacent hx))) ?_
      rw [wp_bind, wp_modify]
      refine (wp_modSock_of (by exact hs)).mpr ?_
      have hq := hQ 0 fun _ => rfl
      rw [Core.unlisted, List.erase_of_not_mem hl] at hq
      exact hq
    · rw [if_neg hc, wp_pure]
      have hq := hQ a.id fun h => absurd h hl
      have heq : c.putSock s (some { a with id := a.id }) = c := by simp [Core.putSock, ← hs]
      rw [Core.unlisted, heq, List.erase_of_not_mem hl, List.erase_of_not_mem hc] at hq
      exact hq

/-- The memory after the end of `local_socket_destroy`. -/
def Core.destroyed (c : Core) (s : SockId) (a : ASocket) : Core :=
  { (c.putSock s none).freePkts (addrs a.queue) with
    localSocketList := c.localSocketList.erase s
    localSocketClosingList := c.localSocketClosingList.erase s }

/-- The end of `local_socket_destroy`: the queue is freed, the socket unlinked and freed. -/
theorem wp_destroyEnd {Q : Unit → Core → Prop} (h : EndOk c s a) (hQ : Q () (c.destroyed s a))
    (hE : a.exitOnClose = true → E .exit) :
    wp (do
      putApackets a.queue
      removeSocket s
      freeSock s
      if a.exitOnClose then fault .exit else pure () : M Unit) Q E c := by
  rw [wp_bind, wp_putApackets h.nodup h.live, wp_bind]
  have hok : Listed (c.freePkts (addrs a.queue)) s a := ⟨h.self, h.list, h.closing, h.once⟩
  refine wp_removeSocket hok fun id _ => ?_
  rw [wp_bind]
  refine (wp_freeSock_of (a := { a with id := id })
    (by simp [Core.unlisted, Core.putSock])).mpr ?_
  have heq :
    (Core.unlisted (c.freePkts (addrs a.queue)) s { a with id := id }).putSock s none =
      c.destroyed s a := by
    simp [Core.unlisted, Core.destroyed, Core.putSock, Core.freePkts]
  rw [heq]
  split
  · next hx => exact hE hx
  · exact hQ

/-- `local_socket_destroy`. -/
theorem wp_localSocketDestroy {Q : Unit → Core → Prop} (h : EndOk c s a)
    (hQ : ∀ l, Quiet l → Q () { c.destroyed s a with
      loop := c.loop.fdeventRemove (.sock s)
      log := l ++ c.log }) (hE : a.exitOnClose = true → E .exit) :
    wp (localSocketDestroy s) Q E c := by
  rw [localSocketDestroy, wp_bind]
  refine (wp_getSock_of h.self).mpr ?_
  rw [wp_bind, wp_get]
  -- the end runs with the record removed and up to two descriptors noted as closed
  have hend (l : List Obs) (hl : Quiet l) : wp (do
      putApackets a.queue
      removeSocket s
      freeSock s
      if a.exitOnClose then fault .exit else pure () : M Unit) Q E
      { c with loop := c.loop.fdeventRemove (.sock s), log := l ++ c.log } :=
    wp_destroyEnd ⟨⟨h.self, h.list, h.closing, h.once⟩, h.nodup, h.live⟩ (hQ l hl) hE
  by_cases h1 : (c.loop.fdes (.sock s)).active = true
  · by_cases h2 : a.writeFd = a.fd
    · simp only [h1, h2, if_true]
      exact hend [_] (by simp [Obs.subject])
    · simp only [h1, h2, if_true, if_false]
      exact hend [_, _] (by simp [Obs.subject])
  · by_cases h2 : a.writeFd = a.fd
    · simp only [h1, h2, if_true]
      exact hend [] (by simp)
    · simp only [h1, h2, if_false]
      exact hend [_] (by simp [Obs.subject])

/-- Closing a local end that has no peer, spelled out. -/
theorem Core.close_alone (c : Core) (s : SockId) (a : ASocket) (how : CloseWay)
    (l : List Obs) :
    c.close ⟨s, a, none, how, l⟩ =
      let d : Close := ⟨s, a, none, how, l⟩
      { c with
        sockets := Function.update c.sockets s d.fate
        localSocketList := c.localSocketList.erase s
        localSocketClosingList :=
          if d.fate.isSome then c.localSocketClosingList ++ [s]
          else c.localSocketClosingList.erase s
        jdwpTrackersList :=
          if a.kind = .jdwpTracker ∧ how ≠ .locked then c.jdwpTrackersList.erase s
          else c.jdwpTrackersList
        loop := d.loop c.loop
        livePkts := (c.freePkts d.freed).livePkts
        log := l ++ c.log } := by
  apply Core.ext
  case sockets => funext x; simp [Core.close, Function.update_apply]
  case transports => exact Core.close_transports_none (by simp [Close.remote])
  case livePkts => funext x; simp [Core.close, Close.clse, Core.freePkts]
  case nextPkt => simp [Core.close, Close.clse]
  all_goals rfl

/-- The second half of `local_socket_close_locked`, without a peer. -/
def localEnd (s : SockId) : M Unit := do
  let a ← getSock s
  if a.closing || a.queue.isEmpty then localSocketDestroy s
  else do
    modSock s fun a => { a with closing := true }
    modLoop (·.fdeventDel (.sock s) Events.onlyRead)
    removeSocket s
    insertClosing s

theorem wp_localEnd {Q : Unit → Core → Prop} (h : EndOk c s a) (hp : a.peer = none)
    (hl : a.closing = false → a.queue ≠ [] → s ∈ c.localSocketList)
    (hQ : ∀ l, Quiet l → Q () (c.close ⟨s, a, none, .locked, l⟩))
    (hE : a.exitOnClose = true → E .exit) : wp (localEnd s) Q E c := by
  simp only [Core.close_alone] at hQ
  rw [localEnd, wp_bind]
  refine (wp_getSock_of h.self).mpr ?_
  by_cases hd : (a.closing || a.queue.isEmpty) = true
  · rw [if_pos hd]
    refine wp_localSocketDestroy h (fun l hq => ?_) hE
    simpa [Close.fate, Close.loop, Close.freed, hd, Core.destroyed, Core.freePkts,
      Core.putSock, addrs] using hQ l hq
  · have hd' : a.closing = false ∧ a.queue ≠ [] := by simpa using hd
    have hmem := hl hd'.1 hd'.2
    have hnc : s ∉ c.localSocketClosingList := h.once hmem
    rw [if_neg hd, wp_bind]
    refine (wp_modSock_of h.self).mpr ?_
    rw [wp_bind, wp_modLoop, wp_bind]
    refine wp_removeSocket (a := { a with closing := true })
      ⟨by simp [Core.putSock], fun x hx => ?_, fun x hx => ?_, h.once⟩ fun id hid => ?_
    · by_cases hxs : x = s
      · simp [Core.putSock, hxs]
      · simpa [Core.putSock, hxs] using h.list x hx
    · by_cases hxs : x = s
      · simp [Core.putSock, hxs]
      · simpa [Core.putSock, hxs] using h.closing x hx
    · obtain rfl : id = 0 := hid hmem
      rw [insertClosing, wp_bind, wp_get, wp_bind]
      refine wp_touch (fun x hx hn => ?_) ?_
      · have hx' : x ∈ c.localSocketClosingList :=
          List.mem_of_mem_erase (List.mem_of_mem_getLast? (Option.mem_toList.mp hx))
        exfalso
        by_cases hxs : x = s
        · simp [Core.unlisted, Core.putSock, hxs] at hn
        · exact h.closing x hx' (by simpa [Core.unlisted, Core.putSock, hxs] using hn)
      · rw [wp_modify]
        simpa [Close.fate, Close.loop, Close.freed, hd', Core.unlisted, Core.putSock, hp,
          Core.onLoop, List.erase_of_not_mem hnc] using hQ [] (by simp)

/-! ### The far end -/

/-- What unlinking a remote socket relies on: its transport, and the neighbours of its
node, are live. -/
structure RemoteOk (c : Core) (q : SockId) (b : ASocket) (t : TId) (T : ATransport) :
    Prop where
  self : c.sockets q = some b
  transport : b.transport = some t
  live : c.transports t = some T
  nodes : ∀ x ∈ T.disconnects, c.sockets x ≠ none

/-- `remove_transport_disconnect` and `free` of a remote socket. -/
theorem wp_remoteGone {Q : Unit → Core → Prop} {t : TId} {T : ATransport}
    (h : RemoteOk c q b t T)
    (hQ : Q ()
      ((c.putTransport t (some { T with disconnects := T.disconnects.erase q })).putSock
      q none)) :
    wp (do
      removeTransportDisconnect b.transport q
      freeSock q : M Unit) Q E c := by
  rw [wp_bind, h.transport, removeTransportDisconnect, wp_bind]
  refine (wp_getTransport_of h.live).mpr ?_
  rw [wp_bind]
  refine wp_touch (fun x hx hn => absurd hn (h.nodes x (mem_of_mem_adjacent hx))) ?_
  refine (wp_modTransport_of h.live).mpr ?_
  exact (wp_freeSock_of (by exact h.self)).mpr hQ

/-- The end of `remote_socket_close`, with the packet `p` allocated before. -/
theorem wp_remoteEnd {Q : Unit → Core → Prop} {t : TId} {T : ATransport} {p : APacket}
    (h : RemoteOk c q b t T)
    (hQ : c.canWrite t T = true → Q () (((c.putTransport t (some { T with
      mainToIo := T.mainToIo ++ [p.finish], disconnects := T.disconnects.erase q })).note
        (.sent t none p.finish.msg)).putSock q none))
    (hE : c.canWrite t T = false → E (.closedPipe t)) :
    wp (do
      sendPacket p b.transport none
      removeTransportDisconnect b.transport q
      freeSock q : M Unit) Q E c := by
  rw [wp_bind, h.transport, wp_sendPacket]
  refine ⟨fun T' hT' => ?_, fun hn => by simp [h.live] at hn⟩
  obtain rfl : T = T' := Option.some.inj (h.live.symm.trans hT')
  split
  · next ho =>
    rw [← h.transport]
    refine wp_remoteGone (T := { T with mainToIo := T.mainToIo ++ [p.finish] })
      ⟨h.self, h.transport, by simp [Core.push, Core.note, Core.putTransport], h.nodes⟩ ?_
    simpa [Core.push, Core.note, Core.putTransport] using hQ ho
  · next ho => exact hE (by simpa using ho)

/-- A far end without a peer is closed: a remote socket sends `CLSE`, a smart socket frees
what it collected. -/
theorem wp_closeRemote {Q : Unit → Core → Prop} {t : TId} {T : ATransport} {n : Nat}
    (h : RemoteOk c q b t T) (hk : b.kind = .remoteSocket) (hp : b.peer = none)
    (hQ : c.canWrite t T = true → Q () (((c.newPkt.putTransport t (some { T with
      mainToIo := T.mainToIo ++ [ctlPacket c.nextPkt A_CLSE 0 b.id]
      disconnects := T.disconnects.erase q })).note
        (.sent t none (ctlPacket c.nextPkt A_CLSE 0 b.id).msg)).putSock q none))
    (hE : c.canWrite t T = false → E (.closedPipe t)) :
    wp (callCloseDepth (n + 1) q) Q E c := by
  rw [callCloseDepth, callCloseWith, wp_bind]
  refine (wp_getSock_of h.self).mpr ?_
  rw [hk]
  simp only [remoteSocketClose]
  rw [wp_bind]
  refine (wp_getSock_of h.self).mpr ?_
  rw [wp_bind, wp_getApacket, hp]
  simp only [pure_bind]
  exact wp_remoteEnd (c := c.newPkt) ⟨h.self, h.transport, h.live, h.nodes⟩ hQ hE

theorem wp_closeSmart {Q : Unit → Core → Prop} {n : Nat} (hs : c.sockets q = some b)
    (hk : b.kind = .smartSocket) (hp : b.peer = none)
    (hl : ∀ x ∈ addrs b.queue.head?.toList, c.livePkts x = true)
    (hQ : Q () ((c.freePkts (addrs b.queue.head?.toList)).putSock q none)) :
    wp (callCloseDepth (n + 1) q) Q E c := by
  have hn : (addrs b.queue.head?.toList).Nodup := by
    cases b.queue.head? <;> simp
  rw [callCloseDepth, callCloseWith, wp_bind]
  refine (wp_getSock_of hs).mpr ?_
  rw [hk]
  simp only [smartSocketClose]
  rw [wp_bind]
  refine (wp_getSock_of hs).mpr ?_
  rw [wp_bind, wp_putApackets hn hl, hp]
  simp only
  exact (wp_freeSock_of (by exact hs)).mpr hQ

/-! ### The local end -/

/-- Two ways of closing a stream have the same effect if they tell the remote the same and
leave the local end with the same functions. -/
theorem Core.close_how (c : Core) (s : SockId) (far : Option (SockId × ASocket)) (l : List Obs)
    {h h' : CloseWay} (hd : h = .disconnect ↔ h' = .disconnect)
    (hp : h = .fromPeer ↔ h' = .fromPeer)
    (hl : a.kind = .localSocket ∨ (h = .locked ↔ h' = .locked)) :
    c.close ⟨s, a, far, h, l⟩ = c.close ⟨s, a, far, h', l⟩ := by
  have hcl (n : Nat) : Close.clse ⟨s, a, far, h, l⟩ n = Close.clse ⟨s, a, far, h', l⟩ n := by
    cases far <;> simp [Close.clse, hd, hp]
  have hfate : Close.fate ⟨s, a, far, h, l⟩ = Close.fate ⟨s, a, far, h', l⟩ := by
    rcases hl with hl | hl <;> simp [Close.fate, hl]
  have htr (n : Nat) (t : TId) (T : ATransport) :
      Close.onTransport ⟨s, a, far, h, l⟩ n t T = Close.onTransport
        ⟨s, a, far, h', l⟩ n t T := by
    simp only [Close.onTransport, hcl]
    rfl
  have hloop (L : Loop FdeId) :
      Close.loop ⟨s, a, far, h, l⟩ L = Close.loop ⟨s, a, far, h', l⟩ L := by
    rcases hl with hl | hl <;> simp [Close.loop, hfate, hl, SockKind.isLocal]
  have htrk : (a.kind = .jdwpTracker ∧ h ≠ .locked) ↔
    (a.kind = .jdwpTracker ∧ h' ≠ .locked) := by
    rcases hl with hl | hl <;> simp [hl]
  simp only [Core.close, hcl, hfate, hloop, Close.freed, htrk]
  congr 1
  funext t
  exact congrArg (fun f => Option.map f _) (funext fun T => htr _ t T)

/-- An ordinary local socket is closed alike by its own function and by
`close_all_sockets`. -/
theorem Core.close_call_eq_locked (c : Core) (s : SockId) (far : Option (SockId × ASocket))
    (l : List Obs) (hk : a.kind = .localSocket) :
    c.close ⟨s, a, far, .call, l⟩ = c.close ⟨s, a, far, .locked, l⟩ :=
  c.close_how s far l (by simp) (by simp) (.inl hk)

/-- A local end without a peer is closed by its own function. -/
theorem wp_closeEnd {Q : Unit → Core → Prop} {n : Nat} (h : EndOk c s a)
    (hk : a.kind.isEnd = true) (hp : a.peer = none)
    (hl : a.closing = false → a.queue ≠ [] → s ∈ c.localSocketList)
    (hj : a.kind.isJdwp = true → a.queue = [] ∧ a.closing = false)
    (hQ : ∀ l, Quiet l →
      Q () (c.close ⟨s, a, none, .call, l⟩))
    (hE : E .exit)
    (hU : ∀ x ∈ c.jdwpTrackersList, c.sockets x = none → E (.useAfterFree x)) :
    wp (callCloseDepth (n + 2) s) Q E c := by
  rw [callCloseDepth, callCloseWith, wp_bind]
  refine (wp_getSock_of h.self).mpr ?_
  cases hkind : a.kind with
  | remoteSocket | smartSocket => simp [hkind, SockKind.isEnd] at hk
  | localSocket =>
      simp only [localSocketCloseLocked]
      rw [wp_bind]
      refine (wp_getSock_of h.self).mpr ?_
      rw [hp]
      simp only
      refine wp_localEnd h hp hl (fun l hq => ?_) fun _ => hE
      rw [← Core.close_call_eq_locked c s none l hkind]
      exact hQ l hq
  | localNotify =>
      -- the socket becomes an ordinary local one and is closed as such
      simp only [localSocketCloseNotify]
      rw [wp_bind]
      refine (wp_getSock_of h.self).mpr ?_
      rw [wp_bind]
      refine (wp_modSock_of h.self).mpr ?_
      rw [wp_bind, wp_note, callCloseDepth, callCloseWith, wp_bind]
      have hs : ((c.putSock s (some { a with kind := .localSocket })).note
          (.failMsg a.fd .closed)).sockets s = some { a with kind := .localSocket } := by
        simp [Core.note, Core.putSock]
      refine (wp_getSock_of hs).mpr ?_
      simp only [localSocketCloseLocked]
      rw [wp_bind]
      refine (wp_getSock_of hs).mpr ?_
      split
      · next q hq => simp [hp] at hq
      refine wp_localEnd (a := { a with kind := .localSocket })
        ⟨⟨hs, fun x hx => ?_, fun x hx => ?_, h.once⟩, h.nodup, h.live⟩ hp hl (fun l hq => ?_)
          fun _ => hE
      · by_cases hxs : x = s
        · simp [Core.note, Core.putSock, hxs]
        · simpa [Core.note, Core.putSock, hxs] using h.list x hx
      · by_cases hxs : x = s
        · simp [Core.note, Core.putSock, hxs]
        · simpa [Core.note, Core.putSock, hxs] using h.closing x hx
      · have hq' := hQ (l ++ [.failMsg a.fd .closed]) (by simp [hq, Obs.subject])
        simpa [Core.close_alone, Close.fate, Close.loop, Close.freed, hkind, SockKind.isLocal,
          Core.note, Core.putSock, Core.freePkts] using hq'
  | jdwpSocket =>
      obtain ⟨hq, hc⟩ := hj (by simp [hkind, SockKind.isJdwp])
      simp only [jdwpSocketClose]
      rw [wp_bind]
      refine (wp_getSock_of h.self).mpr ?_
      rw [wp_bind]
      refine wp_removeSocket h.toListed fun id _ => ?_
      split
      · next q hq => simp [hp] at hq
      refine (wp_freeSock_of (a := { a with id := id })
        (by simp [Core.unlisted, Core.putSock])).mpr ?_
      have hq' := hQ [] (by simp)
      simpa [Core.close_alone, Close.fate, Close.loop, Close.freed, hkind, SockKind.isLocal,
        hq, Core.unlisted, Core.putSock] using hq'
  | jdwpTracker =>
      obtain ⟨hq, hc⟩ := hj (by simp [hkind, SockKind.isJdwp])
      simp only [jdwpTrackerClose]
      rw [wp_bind]
      refine (wp_getSock_of h.self).mpr ?_
      split
      · next q hq => simp [hp] at hq
      rw [wp_bind]
      refine wp_removeSocket h.toListed fun id _ => ?_
      rw [wp_bind, wp_get, wp_bind]
      refine wp_touch (fun x hx hn => ?_) ?_
      · refine hU x (mem_of_mem_adjacent hx) ?_
        by_cases hxs : x = s
        · simp [Core.unlisted, Core.putSock, hxs] at hn
        · simpa [Core.unlisted, Core.putSock, hxs] using hn
      · rw [wp_bind, wp_modify]
        refine (wp_freeSock_of (a := { a with id := id })
          (by simp [Core.unlisted, Core.putSock])).mpr ?_
        have hq' := hQ [] (by simp)
        simpa [Core.close_alone, Close.fate, Close.loop, Close.freed, hkind, SockKind.isLocal,
          hq, Core.unlisted, Core.putSock] using hq'

/-! ### Both ends -/

/-- The peer of a socket together with its record. -/
def Core.farOf (c : Core) (a : ASocket) : Option (SockId × ASocket) :=
  a.peer.bind fun q => (c.sockets q).map fun b => (q, b)

/-- What consistent data guarantee of a local end after its peer was taken apart. -/
theorem WF.endOk {H : List Nat} (hw : WF ⟨c, H⟩) (hs : c.sockets s = some a) {e : Core}
    {z : ASocket} (hself : e.sockets s = some z) (hq : z.queue = a.queue)
    (hl : e.localSocketList = c.localSocketList)
    (hc : e.localSocketClosingList = c.localSocketClosingList)
    (hlive : ∀ x b, c.sockets x = some b → b.kind.isEnd = true → e.sockets x ≠ none)
    (hp : ∀ x ∈ addrs a.queue, e.livePkts x = true) : EndOk e s z where
  self := hself
  list := by
    intro x hx
    rw [hl] at hx
    obtain ⟨b, hb, hk, -⟩ := (hw.graph.mem_list x).mp hx
    exact hlive x b hb hk
  closing := by
    intro x hx
    rw [hc] at hx
    obtain ⟨b, hb, hcl⟩ := (hw.graph.mem_closing x).mp hx
    have hk := ((hw.graph.shape hb).closing hcl).1
    exact hlive x b hb (by revert hk; cases b.kind <;> simp [SockKind.isLocal, SockKind.isEnd])
  once := by
    intro hx hx'
    rw [hl] at hx
    rw [hc] at hx'
    obtain ⟨b, hb, -, hcl⟩ := (hw.graph.mem_list s).mp hx
    obtain ⟨b', hb', hcl'⟩ := (hw.graph.mem_closing s).mp hx'
    obtain rfl : b = b' := Option.some.inj (hb.symm.trans hb')
    simp [hcl] at hcl'
  nodup := by
    rw [hq]
    have := hw.pkts.nodup (.queue s)
    simpa [Work.ledger, Work.held, hs] using this
  live := by rw [hq]; exact hp

/-- The packets of a queue are live. -/
theorem WF.live_queue {H : List Nat} (hw : WF ⟨c, H⟩) (hs : c.sockets s = some a) :
    ∀ x ∈ addrs a.queue, c.livePkts x = true := by
  intro x hx
  exact hw.pkts.live (o := .queue s) (x := x) (by simpa [Work.ledger, Work.held, hs] using hx)

/-- A live packet does not have the next address. -/
theorem WF.ne_nextPkt {H : List Nat} (hw : WF ⟨c, H⟩) {x : Nat} (hx : c.livePkts x = true) :
    x ≠ c.nextPkt := by
  rintro rfl
  exact Nat.lt_irrefl _ (hw.pkts.fresh hx)

/-- What consistent data guarantee of a remote socket. -/
theorem WF.remoteOk {H : List Nat} (hw : WF ⟨c, H⟩) (hb : c.sockets q = some b)
    (hk : b.kind = .remoteSocket) {e : Core} {z : ASocket} (hself : e.sockets q = some z)
    (ht : z.transport = b.transport) (hT : e.transports = c.transports)
    (hlive : ∀ x d, c.sockets x = some d → d.kind.isEnd = false → e.sockets x ≠ none) :
    ∃ t T, c.transports t = some T ∧ b.transport = some t ∧ T.InUse ∧ RemoteOk e q z t T := by
  obtain ⟨t, T, hbt, hTt, hm⟩ := hw.graph.remote hb hk
  refine ⟨t, T, hTt, hbt, .inl (List.ne_nil_of_mem hm), hself, ht.trans hbt, hT ▸ hTt,
    fun x hx => ?_⟩
  obtain ⟨d, hd, hkd, -⟩ := (hw.graph.disconnects hTt).2 x hx
  exact hlive x d hd (by simp [hkd, SockKind.isEnd])

/-- Closing a stream: the remote end first, then the local end. -/
theorem close_remote_first {t : TId} {T : ATransport} {v : CloseWay} {l : List Obs}
    (hne : q ≠ s) (hk : b.kind = .remoteSocket) (ht : b.transport = some t)
    (hT : c.transports t = some T) (hw : v ≠ .disconnect) (hw' : v ≠ .fromPeer)
    (hl : ∀ x ∈ addrs a.queue, x ≠ c.nextPkt) :
    ((((((c.putSock q (some { b with peer := none })).newPkt.putTransport t (some { T with
        mainToIo := T.mainToIo ++ [ctlPacket c.nextPkt A_CLSE 0 b.id]
        disconnects := T.disconnects.erase q })).note
          (.sent t none (ctlPacket c.nextPkt A_CLSE 0 b.id).msg)).putSock q none).putSock s
            (some { a with peer := none })).close
        ⟨s, { a with peer := none }, none, v, l⟩) =
      c.close ⟨s, a, some (q, b), v,
        l ++ [.sent t none (ctlPacket c.nextPkt A_CLSE 0 b.id).msg]⟩ := by
  have htr := Core.close_transports_some (c := c) (T := T) (t := t) (o := q)
    (d := ⟨s, a, some (q, b), v, l ++ [.sent t none (ctlPacket c.nextPkt A_CLSE 0 b.id).msg]⟩)
    (by simp [Close.remote, hk, ht]) hT
  rw [Core.close_alone]
  apply Core.ext
  case sockets =>
    funext x
    by_cases hx : x = s
    · simp [Core.close, Close.fate, hx]
    · by_cases hxq : x = q
      · simp [Core.close, hxq, Core.putSock, Core.note, hne]
      · simp [Core.close, hx, hxq, Ne.symm hxq, Core.putSock, Core.note, Core.putTransport,
          Core.newPkt]
  case transports =>
    rw [htr]
    simp [Core.putSock, Core.note, Core.putTransport, Core.newPkt, Close.clse, hk, hw, hw']
  case livePkts =>
    funext x
    by_cases hx : x = c.nextPkt
    · have hfree : (a.closing = false ∧ ¬a.queue = []) ∨ ∀ p ∈ a.queue, ¬p.addr = c.nextPkt :=
        .inr fun p hp => hl p.addr (List.mem_map_of_mem hp)
      simpa [hx, Core.close, Close.clse, Close.freed, Close.fate, hk, hw, Core.freePkts,
        Core.putSock, Core.note, Core.putTransport, Core.newPkt] using hfree
    · simp [Core.close, Close.clse, Close.freed, Close.fate, hk, hw, hx, Core.freePkts,
        Core.putSock, Core.note, Core.putTransport, Core.newPkt]
  case nextPkt =>
    simp [Core.close, Close.clse, hk, hw, Core.putSock, Core.note, Core.putTransport,
      Core.newPkt]
  case log => simp [Core.close, Core.putSock, Core.note, Core.putTransport, Core.newPkt]
  all_goals rfl

/-- Closing a client of the smart socket: the smart socket first, then the local end. -/
theorem close_smart_first {v : CloseWay} {l : List Obs} (hne : q ≠ s)
    (hk : b.kind = .smartSocket) :
    ((((c.putSock q (some { b with peer := none })).freePkts
        (addrs b.queue.head?.toList)).putSock q none).putSock s
          (some { a with peer := none })).close
        ⟨s, { a with peer := none }, none, v, l⟩ =
      c.close ⟨s, a, some (q, b), v, l⟩ := by
  rw [Core.close_alone]
  apply Core.ext
  case sockets =>
    funext x
    by_cases hx : x = s
    · simp [Core.close, Close.fate, hx]
    · by_cases hxq : x = q
      · simp [Core.close, hxq, Core.putSock, hne]
      · simp [Core.close, hx, hxq, Ne.symm hxq, Core.putSock, Core.freePkts]
  case transports =>
    rw [Core.close_transports_none (by simp [Close.remote, hk])]
    rfl
  case livePkts =>
    funext x
    have hcl (n : Nat) : Close.clse ⟨s, a, some (q, b), v, l⟩ n = [] := by
      simp [Close.clse, hk]
    have hmem : x ∈ Close.freed ⟨s, a, some (q, b), v, l⟩ ↔ x ∈ addrs b.queue.head?.toList ∨
          x ∈ Close.freed ⟨s, { a with peer := none }, none, v, l⟩ := by
      simp [Close.freed, hk, Close.fate, addrs]
    have hl : (c.close ⟨s, a, some (q, b), v, l⟩).livePkts x = if x ∈
      Close.freed ⟨s, a, some (q, b), v, l⟩ then false else c.livePkts x := by
      simp [Core.close, hcl]
    rw [hl, if_congr hmem rfl rfl]
    simp only [Core.freePkts, Core.putSock]
    by_cases h1 : x ∈ addrs b.queue.head?.toList
    · simp [h1]
    · simp only [h1, false_or, if_false]
  case nextPkt => simp [Core.close, Close.clse, hk, Core.putSock, Core.freePkts]
  all_goals rfl

/-- `local_socket_close_locked` on a local end of any kind. -/
theorem wp_localSocketCloseLocked {H : List Nat} {Q : Unit → Core → Prop} {n : Nat}
    (hw : WF ⟨c, H⟩) (hs : c.sockets s = some a) (hk : a.kind.isEnd = true)
    (hQ : ∀ l, Quiet l → Q () (c.close
      ⟨s, a, c.farOf a, .locked, l⟩))
    (hE : E .exit)
    (hF : ∀ t T, c.transports t = some T → T.InUse → c.canWrite t T = false →
      E (.closedPipe t)) :
    wp (localSocketCloseLocked (callCloseDepth (n + 1)) s) Q E c := by
  have hg : Graph c := hw.graph
  rw [localSocketCloseLocked, wp_bind]
  refine (wp_getSock_of hs).mpr ?_
  split
  · next q hp =>
    obtain ⟨b, hb, hpb, hf⟩ := hg.peer hs hp
    have hne : q ≠ s := hg.peer_ne hs hp
    have hfar : c.farOf a = some (q, b) := by simp [Core.farOf, hp, hb]
    rw [hfar] at hQ
    rw [wp_bind]
    refine (wp_modSock_of hb).mpr ?_
    rw [wp_bind]
    by_cases hkr : b.kind = .remoteSocket
    · obtain ⟨t, T, hT, hbt, huse, hok⟩ := hw.remoteOk hb hkr
        (e := c.putSock q (some { b with peer := none })) (z := { b with peer := none })
        (by simp [Core.putSock]) rfl rfl (fun x d hd _ => by
          by_cases hx : x = q
          · simp [Core.putSock, hx]
          · simp [Core.putSock, hx, hd])
      refine wp_closeRemote hok hkr rfl (fun _ => ?_) (hF t T hT huse)
      rw [wp_bind]
      refine (wp_modSock_of (a := a) ?_).mpr ?_
      · simp [Core.putSock, Core.note, Core.putTransport, Core.newPkt, hne.symm, hs]
      refine wp_localEnd (a := { a with peer := none })
        (hw.endOk hs (by simp [Core.putSock]) rfl rfl rfl (fun x d hd hkd => ?_)
          fun x hx => ?_) rfl
        (fun hc _ => hg.mem_list_of hs hk hc) (fun l hl => ?_) fun _ => hE
      · have hxq : x ≠ q := by
          rintro rfl
          obtain rfl : b = d := Option.some.inj (hb.symm.trans hd)
          simp [hkr, SockKind.isEnd] at hkd
        by_cases hxs : x = s
        · simp [Core.putSock, hxs]
        · simp [Core.putSock, Core.note, Core.putTransport, Core.newPkt, hxs, hxq, hd]
      · have hlive := hw.live_queue hs x hx
        simp [Core.putSock, Core.note, Core.putTransport, Core.newPkt, hw.ne_nextPkt hlive,
          hlive]
      · have heq := close_remote_first (l := l) (v := .locked) hne hkr hbt hT
          (by simp) (by simp) fun x hx => hw.ne_nextPkt (hw.live_queue hs x hx)
        exact (congrArg (Q ()) heq).mpr (hQ _ (by simp [hl, Obs.subject]))
    · have hks : b.kind = .smartSocket := by
        revert hf hkr hk
        cases a.kind <;> cases b.kind <;> simp [SockKind.Faces, SockKind.isEnd]
      refine wp_closeSmart (b := { b with peer := none }) (by simp [Core.putSock]) hks rfl
        (fun x hx => ?_) ?_
      · refine hw.live_queue hb x ?_
        cases hbq : b.queue with
        | nil => simp [hbq] at hx
        | cons p l => simp_all
      · rw [wp_bind]
        refine (wp_modSock_of (a := a) ?_).mpr ?_
        · simp [Core.putSock, Core.freePkts, hne.symm, hs]
        refine wp_localEnd (a := { a with peer := none })
          (hw.endOk hs (by simp [Core.putSock]) rfl rfl rfl (fun x d hd hkd => ?_)
            fun x hx => ?_) rfl (fun hc _ => hg.mem_list_of hs hk hc) (fun l hl => ?_)
              fun _ => hE
        · have hxq : x ≠ q := by
            rintro rfl
            obtain rfl : b = d := Option.some.inj (hb.symm.trans hd)
            simp [hks, SockKind.isEnd] at hkd
          by_cases hxs : x = s
          · simp [Core.putSock, hxs]
          · simp [Core.putSock, Core.freePkts, hxs, hxq, hd]
        · have hlive := hw.live_queue hs x hx
          -- the smart socket's packets are not this socket's
          have hnot : x ∉ addrs b.queue.head?.toList := by
            intro hx'
            have hxb : x ∈ addrs b.queue := by
              cases hbq : b.queue with
              | nil => simp [hbq] at hx'
              | cons p l => simp_all
            have hsq : Owner.queue s = .queue q := hw.pkts.unique (x := x)
              (by simpa [Work.ledger, Work.held, hs] using hx)
              (by simpa [Work.ledger, Work.held, hb] using hxb)
            exact hne (by simpa using hsq.symm)
          simp [Core.putSock, Core.freePkts, hnot, hlive]
        · have heq := close_smart_first (c := c) (a := a) (l := l) (v := .locked) hne hks
          exact (congrArg (Q ()) heq).mpr (hQ l hl)
  · next hp =>
    have hfar : c.farOf a = none := by simp [Core.farOf, hp]
    rw [hfar] at hQ
    exact wp_localEnd (hw.endOk hs hs rfl rfl rfl (fun x d hd _ => by simp [hd])
      (hw.live_queue hs)) hp (fun hc _ => hg.mem_list_of hs hk hc) hQ fun _ => hE

/-- Closing a stream: the local end first, then the remote end with a `CLSE`. -/
theorem close_end_first {t : TId} {T : ATransport} {l : List Obs} (hne : q ≠ s)
    (hk : b.kind = .remoteSocket) (ht : b.transport = some t) (hT : c.transports t = some T)
    (hl : ∀ x ∈ addrs a.queue, x ≠ c.nextPkt) :
    ((((c.newPkt.putSock s (some { a with peer := none })).close
        ⟨s, { a with peer := none }, none, .call, l⟩).putTransport t (some { T with
          mainToIo := T.mainToIo ++ [ctlPacket c.nextPkt A_CLSE a.id b.id]
          disconnects := T.disconnects.erase q })).note
            (.sent t none (ctlPacket c.nextPkt A_CLSE a.id b.id).msg)).putSock q none =
      c.close ⟨s, a, some (q, b), .fromPeer,
        .sent t none (ctlPacket c.nextPkt A_CLSE a.id b.id).msg :: l⟩ := by
  have htr := Core.close_transports_some (c := c) (T := T) (t := t) (o := q)
    (d := ⟨s, a, some (q, b), .fromPeer,
      .sent t none (ctlPacket c.nextPkt A_CLSE a.id b.id).msg :: l⟩)
    (by simp [Close.remote, hk, ht]) hT
  rw [Core.close_alone]
  apply Core.ext
  case sockets =>
    funext x
    by_cases hxq : x = q
    · simp [Core.close, hxq, hne, Core.putSock]
    · by_cases hx : x = s
      · simp [Core.close, Close.fate, hx, hne.symm, Core.putSock, Core.note, Core.putTransport]
      · simp [Core.close, hx, hxq, Ne.symm hxq, Core.putSock, Core.note, Core.putTransport,
          Core.newPkt]
  case transports =>
    rw [htr]
    simp [Core.putSock, Core.note, Core.putTransport, Core.newPkt, Close.clse, hk]
  case livePkts =>
    funext x
    by_cases hx : x = c.nextPkt
    · have hfree : (a.closing = false ∧ ¬a.queue = []) ∨ ∀ p ∈ a.queue, ¬p.addr = c.nextPkt :=
        .inr fun p hp => hl p.addr (List.mem_map_of_mem hp)
      simpa [hx, Core.close, Close.clse, Close.freed, Close.fate, hk, Core.freePkts,
        Core.putSock, Core.note, Core.putTransport, Core.newPkt] using hfree
    · simp [Core.close, Close.clse, Close.freed, Close.fate, hk, hx, Core.freePkts,
        Core.putSock, Core.note, Core.putTransport, Core.newPkt]
  case nextPkt =>
    simp [Core.close, Close.clse, hk, Core.putSock, Core.note, Core.putTransport, Core.newPkt]
  case localSocketClosingList =>
    simp [Core.close, Close.fate, Core.putSock, Core.note, Core.putTransport, Core.newPkt]
  case jdwpTrackersList =>
    simp [Core.close, Core.putSock, Core.note, Core.putTransport, Core.newPkt]
  case loop =>
    simp [Core.close, Close.loop, Close.fate, Core.putSock, Core.note, Core.putTransport,
      Core.newPkt]
  all_goals rfl

/-- Closing a stream whose transport goes: the local end first, then the remote end. -/
theorem close_disconnected {t : TId} {T : ATransport} {l : List Obs} (hne : q ≠ s)
    (hk : b.kind = .remoteSocket) (ht : b.transport = some t) (hT : c.transports t = some T) :
    (((c.putSock s (some { a with peer := none })).close
        ⟨s, { a with peer := none }, none, .call, l⟩).putTransport t (some { T with
          disconnects := T.disconnects.erase q })).putSock q none =
      c.close ⟨s, a, some (q, b), .disconnect, l⟩ := by
  have htr := Core.close_transports_some (c := c) (T := T) (t := t) (o := q)
    (d := ⟨s, a, some (q, b), .disconnect, l⟩) (by simp [Close.remote, hk, ht]) hT
  rw [Core.close_alone]
  apply Core.ext
  case sockets =>
    funext x
    by_cases hxq : x = q
    · simp [Core.close, hxq, hne, Core.putSock]
    · by_cases hx : x = s
      · simp [Core.close, Close.fate, hx, hne.symm, Core.putSock, Core.putTransport]
      · simp [Core.close, hx, hxq, Ne.symm hxq, Core.putSock, Core.putTransport]
  case transports =>
    rw [htr]
    simp [Core.putSock, Core.putTransport, Close.clse]
  case livePkts =>
    funext x
    simp [Core.close, Close.clse, Close.freed, Close.fate, hk, Core.freePkts, Core.putSock,
      Core.putTransport]
  case nextPkt => simp [Core.close, Close.clse, Core.putSock, Core.putTransport]
  case localSocketClosingList => simp [Core.close, Close.fate, Core.putSock, Core.putTransport]
  case jdwpTrackersList => simp [Core.close, Core.putSock, Core.putTransport]
  case loop => simp [Core.close, Close.loop, Close.fate, Core.putSock, Core.putTransport]
  all_goals rfl

/-- Closing a client of the smart socket from the other side. -/
theorem close_smart_last {l : List Obs} {z : Option ASocket} (hne : q ≠ s)
    (hk : b.kind = .smartSocket) :
    (((((c.freePkts (addrs b.queue.head?.toList)).putSock s
      (some { a with peer := none })).close
        ⟨s, { a with peer := none }, none, .call, l⟩).putSock q z).putSock q none) =
      c.close ⟨s, a, some (q, b), .fromPeer, l⟩ := by
  rw [Core.close_alone]
  apply Core.ext
  case sockets =>
    funext x
    by_cases hxq : x = q
    · simp [Core.close, hxq, hne, Core.putSock]
    · by_cases hx : x = s
      · simp [Core.close, Close.fate, hx, hne.symm, Core.putSock]
      · simp [Core.close, hx, hxq, Ne.symm hxq, Core.putSock, Core.freePkts]
  case transports =>
    rw [Core.close_transports_none (by simp [Close.remote, hk])]
    rfl
  case livePkts =>
    funext x
    have hcl (n : Nat) : Close.clse ⟨s, a, some (q, b), .fromPeer, l⟩ n = [] := by
      simp [Close.clse, hk]
    have hmem : x ∈ Close.freed ⟨s, a, some (q, b), .fromPeer, l⟩ ↔
        x ∈ addrs b.queue.head?.toList ∨
          x ∈ Close.freed ⟨s, { a with peer := none }, none, .call, l⟩ := by
      simp [Close.freed, hk, Close.fate, addrs]
    have hl : (c.close ⟨s, a, some (q, b), .fromPeer, l⟩).livePkts x =
        if x ∈ Close.freed ⟨s, a, some (q, b), .fromPeer, l⟩ then false else c.livePkts x := by
      simp [Core.close, hcl]
    rw [hl, if_congr hmem rfl rfl]
    simp only [Core.freePkts, Core.putSock]
    by_cases h1 : x ∈ addrs b.queue.head?.toList
    · simp [h1]
    · simp only [h1, false_or, if_false]
  case nextPkt => simp [Core.close, Close.clse, hk, Core.putSock, Core.freePkts]
  case localSocketClosingList => simp [Core.close, Close.fate, Core.putSock, Core.freePkts]
  case jdwpTrackersList => simp [Core.close, Core.putSock, Core.freePkts]
  case loop => simp [Core.close, Close.loop, Close.fate, Core.putSock, Core.freePkts]
  all_goals rfl

/-- Closing a JDWP stream: it has nothing queued and no record in the event loop. -/
theorem close_jdwp {t : TId} {T : ATransport} (hne : q ≠ s)
    (hj : a.kind.isJdwp = true) (hq : a.queue = []) (hk : b.kind = .remoteSocket)
    (ht : b.transport = some t) (hT : c.transports t = some T) :
    c.close ⟨s, a, some (q, b), .call,
        [.sent t none (ctlPacket c.nextPkt A_CLSE 0 b.id).msg]⟩ =
      { c.newPkt with
        sockets := Function.update (Function.update c.sockets q none) s none
        localSocketList := c.localSocketList.erase s
        localSocketClosingList := c.localSocketClosingList.erase s
        jdwpTrackersList :=
          if a.kind = .jdwpTracker then c.jdwpTrackersList.erase s else c.jdwpTrackersList
        transports := Function.update c.transports t (some { T with
          mainToIo := T.mainToIo ++ [ctlPacket c.nextPkt A_CLSE 0 b.id]
          disconnects := T.disconnects.erase q })
        log := .sent t none (ctlPacket c.nextPkt A_CLSE 0 b.id).msg :: c.log } := by
  have hloc : a.kind.isLocal = false := by
    revert hj; cases a.kind <;> simp [SockKind.isJdwp, SockKind.isLocal]
  have htr := Core.close_transports_some (c := c) (T := T) (t := t) (o := q)
    (d := ⟨s, a, some (q, b), .call, [.sent t none (ctlPacket c.nextPkt A_CLSE 0 b.id).msg]⟩)
    (by simp [Close.remote, hk, ht]) hT
  apply Core.ext
  case sockets =>
    funext x
    by_cases hx : x = s
    · simp [Core.close, Close.fate, hx, hq]
    · by_cases hxq : x = q
      · simp [Core.close, hxq, hne]
      · simp [Core.close, hx, hxq, Ne.symm hxq]
  case transports =>
    rw [htr]
    simp [Close.clse, hk]
  case livePkts =>
    funext x
    simp [Core.close, Close.clse, Close.freed, Close.fate, hk, hq, Core.newPkt,
      Function.update_apply]
  case nextPkt => simp [Core.close, Close.clse, hk, Core.newPkt]
  case localSocketClosingList => simp [Core.close, Close.fate, hq]
  case jdwpTrackersList => simp [Core.close]
  case loop => simp [Core.close, Close.loop, Close.fate, hq, hloc, Core.newPkt]
  all_goals rfl

/-- A socket that can be a local end, other than a remote or smart socket. -/
theorem SockKind.isEnd_of_isJdwp {k : SockKind} (h : k.isJdwp = true) : k.isEnd = true := by
  revert h; cases k <;> simp [SockKind.isJdwp, SockKind.isEnd]

/-- A JDWP socket has an empty queue and is not closing. -/
theorem Graph.jdwp_empty (hg : Graph c) (hs : c.sockets s = some a)
    (hj : a.kind.isJdwp = true) :
    a.queue = [] ∧ a.closing = false := by
  have hsh := hg.shape hs
  have hnl : a.kind.isLocal = false := by
    revert hj; cases a.kind <;> simp [SockKind.isJdwp, SockKind.isLocal]
  constructor
  · rcases hsh.queue with hl | hq | ⟨hk, -⟩
    · simp [hnl] at hl
    · exact hq
    · simp [hk, SockKind.isJdwp] at hj
  · cases hc : a.closing with
    | false => rfl
    | true => simp [(hsh.closing hc).1] at hnl

/-- `jdwp_socket_close` and `jdwp_tracker_close`. -/
theorem wp_closeJdwp {H : List Nat} {Q : Unit → Core → Prop} {n : Nat} (hw : WF ⟨c, H⟩)
    (hs : c.sockets s = some a) (hj : a.kind.isJdwp = true)
    (hQ : ∀ l, Quiet l → Q () (c.close ⟨s, a, c.farOf a, .call, l⟩))
    (hF : ∀ t T, c.transports t = some T → T.InUse → c.canWrite t T = false →
      E (.closedPipe t))
    (hU : ∀ x ∈ c.jdwpTrackersList, c.sockets x = none → E (.useAfterFree x)) :
    wp (callCloseDepth (n + 2) s) Q E c := by
  have hg : Graph c := hw.graph
  have hend := SockKind.isEnd_of_isJdwp hj
  have hsh := hg.shape hs
  obtain ⟨hq, hc⟩ := hg.jdwp_empty hs hj
  obtain ⟨q, hp⟩ : ∃ q, a.peer = some q := by
    cases hp : a.peer with
    | some q => exact ⟨q, rfl⟩
    | none =>
        rcases hsh.peer.mp hp with hk | hk
        · simp [hk, SockKind.isJdwp] at hj
        · simp [hc] at hk
  obtain ⟨b, hb, hpb, hf⟩ := hg.peer hs hp
  have hne : q ≠ s := hg.peer_ne hs hp
  have hkr : b.kind = .remoteSocket := by
    revert hf hj
    cases a.kind <;> cases b.kind <;> simp [SockKind.Faces, SockKind.isJdwp]
  have hfar : c.farOf a = some (q, b) := by simp [Core.farOf, hp, hb]
  obtain ⟨t, T, hbt, hT, hm⟩ := hg.remote hb hkr
  have huse : T.InUse := .inl (List.ne_nil_of_mem hm)
  have hQ' := hQ [.sent t none (ctlPacket c.nextPkt A_CLSE 0 b.id).msg] (by simp [Obs.subject])
  rw [hfar, close_jdwp hne hj hq hkr hbt hT] at hQ'
  have hlisted : Listed c s a :=
    (hw.endOk hs hs rfl rfl rfl (fun x d hd _ => by simp [hd]) (hw.live_queue hs)).toListed
  rw [callCloseDepth, callCloseWith, wp_bind]
  refine (wp_getSock_of hs).mpr ?_
  cases hkind : a.kind with
  | localSocket | localNotify | remoteSocket | smartSocket =>
      simp [hkind, SockKind.isJdwp] at hj
  | jdwpSocket =>
      simp only [jdwpSocketClose]
      rw [wp_bind]
      refine (wp_getSock_of hs).mpr ?_
      rw [wp_bind]
      refine wp_removeSocket hlisted fun id _ => ?_
      simp only [hp]
      rw [wp_bind]
      have hb₁ : (c.unlisted s { a with id := id, peer := some q }).sockets q = some b := by
        simp [Core.unlisted, Core.putSock, hne, hb]
      refine (wp_modSock_of (by simpa [hp] using hb₁)).mpr ?_
      rw [wp_bind]
      refine wp_closeRemote (t := t) (T := T) (b := { b with peer := none })
        ⟨by simp [Core.putSock], hbt, hT, fun x hx => ?_⟩ hkr rfl (fun _ => ?_)
          (hF t T hT huse)
      · obtain ⟨d, hd, hkd, -⟩ := (hg.disconnects hT).2 x hx
        by_cases hxq : x = q
        · simp [Core.putSock, hxq]
        · by_cases hxs : x = s
          · simp [Core.putSock, Core.unlisted, hxs, hne.symm]
          · simp [Core.putSock, Core.unlisted, hxs, hxq, hd]
      · refine (wp_freeSock_of (a := { a with id := id }) ?_).mpr ?_
        · simp [Core.putSock, Core.note, Core.putTransport, Core.newPkt, Core.unlisted,
            hne.symm, hp]
        · refine (congrArg (Q ())
            (Core.ext ?_ ?_ ?_ ?_ ?_ ?_ ?_ ?_ ?_ ?_ ?_ ?_ ?_ ?_ ?_)).mpr hQ'
          · simp [Core.putSock, Core.note, Core.putTransport, Core.newPkt, Core.unlisted,
              Function.update_comm hne]
          all_goals simp [Core.putSock, Core.note, Core.putTransport, Core.newPkt,
            Core.unlisted, hkind]
  | jdwpTracker =>
      simp only [jdwpTrackerClose]
      rw [wp_bind]
      refine (wp_getSock_of hs).mpr ?_
      simp only [hp]
      rw [wp_bind]
      refine (wp_modSock_of hb).mpr ?_
      rw [wp_bind]
      obtain ⟨t', T', hT', hbt', -, hok⟩ := hw.remoteOk hb hkr
        (e := c.putSock q (some { b with peer := none })) (z := { b with peer := none })
        (by simp [Core.putSock]) rfl rfl (fun x d hd _ => by
          by_cases hx : x = q
          · simp [Core.putSock, hx]
          · simp [Core.putSock, hx, hd])
      obtain rfl : t = t' := Option.some.inj (hbt.symm.trans hbt')
      obtain rfl : T = T' := Option.some.inj (hT.symm.trans hT')
      refine wp_closeRemote hok hkr rfl (fun _ => ?_) (hF t T hT huse)
      rw [wp_bind]
      refine wp_removeSocket (a := a) (EndOk.toListed ?_) fun id _ => ?_
      · refine hw.endOk hs ?_ rfl rfl rfl (fun x d hd hkd => ?_) (by simp [hq])
        · simp [Core.putSock, Core.note, Core.putTransport, Core.newPkt, hne.symm, hs]
        · have hxq : x ≠ q := by
            rintro rfl
            obtain rfl : b = d := Option.some.inj (hb.symm.trans hd)
            simp [hkr, SockKind.isEnd] at hkd
          simp [Core.putSock, Core.note, Core.putTransport, Core.newPkt, hxq, hd]
      · rw [wp_bind, wp_get, wp_bind]
        refine wp_touch (fun x hx hn => ?_) ?_
        · -- a dead neighbour was dead before: the remote end is not on this list
          refine hU x (mem_of_mem_adjacent hx) ?_
          have hxq : x ≠ q := by
            rintro rfl
            have := (hg.mem_trackers hb).mp (mem_of_mem_adjacent hx)
            simp [hkr] at this
          by_cases hxs : x = s
          · simp [Core.unlisted, Core.putSock, hxs] at hn
          · simpa [Core.unlisted, Core.putSock, Core.note, Core.putTransport, Core.newPkt, hxs,
              hxq] using hn
        · rw [wp_bind, wp_modify]
          refine (wp_freeSock_of (a := { a with id := id }) ?_).mpr ?_
          · simp [Core.putSock, Core.unlisted]
          · refine (congrArg (Q ())
              (Core.ext ?_ ?_ ?_ ?_ ?_ ?_ ?_ ?_ ?_ ?_ ?_ ?_ ?_ ?_ ?_)).mpr hQ'
            all_goals simp [Core.putSock, Core.note, Core.putTransport, Core.newPkt,
              Core.unlisted, hkind]

/-- `s->close(s)` on a local end. -/
theorem wp_callClose_end {H : List Nat} {Q : Unit → Core → Prop} (hw : WF ⟨c, H⟩)
    (hs : c.sockets s = some a) (hk : a.kind.isEnd = true)
    (hQ : ∀ l, Quiet l → Q () (c.close ⟨s, a, c.farOf a, .call, l⟩)) (hE : E .exit)
    (hF : ∀ t T, c.transports t = some T → T.InUse → c.canWrite t T = false →
      E (.closedPipe t))
    (hU : ∀ x ∈ c.jdwpTrackersList, c.sockets x = none → E (.useAfterFree x)) :
    wp (callClose s) Q E c := by
  have hg : Graph c := hw.graph
  by_cases hj : a.kind.isJdwp = true
  · exact wp_closeJdwp hw hs hj hQ hF hU
  · by_cases hl : a.kind = .localSocket
    · rw [callClose, closeDepth, callCloseDepth, callCloseWith, wp_bind]
      refine (wp_getSock_of hs).mpr ?_
      rw [hl]
      refine wp_localSocketCloseLocked hw hs hk (fun l hq => ?_) hE hF
      rw [← Core.close_call_eq_locked c s _ l hl]
      exact hQ l hq
    · have hn : a.kind = .localNotify := by
        revert hk hj hl
        cases a.kind <;> simp [SockKind.isEnd, SockKind.isJdwp]
      have hp : a.peer = none := (hg.shape hs).peer.mpr (.inl hn)
      have hfar : c.farOf a = none := by simp [Core.farOf, hp]
      rw [hfar] at hQ
      exact wp_closeEnd (n := 1) (hw.endOk hs hs rfl rfl rfl (fun x d hd _ => by simp [hd])
        (hw.live_queue hs)) hk hp (fun hc _ => hg.mem_list_of hs hk hc)
        (fun hj' => absurd hj' hj) hQ hE hU

/-- The local end of a stream is closed after it was detached. -/
theorem wp_closeEnd_detached {H : List Nat} {Q : Unit → Core → Prop} {n : Nat} {d : Core}
    (hw : WF ⟨c, H⟩) (hs : c.sockets s = some a) (hk : a.kind.isEnd = true)
    (hsock : d.sockets = c.sockets) (hl : d.localSocketList = c.localSocketList)
    (hc : d.localSocketClosingList = c.localSocketClosingList)
    (ht : d.jdwpTrackersList = c.jdwpTrackersList)
    (hp : ∀ x ∈ addrs a.queue, d.livePkts x = true)
    (hQ : ∀ l, Quiet l → Q () ((d.putSock s (some { a with peer := none })).close
      ⟨s, { a with peer := none }, none, .call, l⟩)) (hE : E .exit)
    (hU : ∀ x ∈ c.jdwpTrackersList, c.sockets x = none → E (.useAfterFree x)) :
    wp (callCloseDepth (n + 2) s) Q E (d.putSock s (some { a with peer := none })) := by
  have hg : Graph c := hw.graph
  refine wp_closeEnd (a := { a with peer := none }) ?_ hk rfl (fun hcl _ => ?_)
    (fun hj => hg.jdwp_empty (a := a) hs hj) hQ hE (fun x hx hn => ?_)
  · refine hw.endOk hs (by simp [Core.putSock]) rfl hl hc (fun x d hd _ => ?_) hp
    by_cases hxs : x = s
    · simp [Core.putSock, hxs]
    · simp [Core.putSock, hxs, hsock, hd]
  · simpa [Core.putSock, hl] using hg.mem_list_of hs hk hcl
  · refine hU x (by simpa [Core.putSock, ht] using hx) ?_
    by_cases hxs : x = s
    · simp [Core.putSock, hxs] at hn
    · simpa [Core.putSock, hxs, hsock] using hn

/-- A remote or smart socket has a local end as its peer. -/
theorem Graph.far_end (hg : Graph c) (hb : c.sockets q = some b) (hk : b.kind.isEnd = false) :
    ∃ s a, b.peer = some s ∧ c.sockets s = some a ∧ a.peer = some q ∧ a.kind.isEnd = true ∧
      q ≠ s := by
  have hsh := hg.shape hb
  cases hp : b.peer with
  | none =>
      rcases hsh.peer.mp hp with hn | hc
      · simp [hn, SockKind.isEnd] at hk
      · have hl := (hsh.closing hc).1
        revert hl hk
        cases b.kind <;> simp [SockKind.isLocal, SockKind.isEnd]
  | some s =>
      obtain ⟨a, ha, hpa, hf⟩ := hg.peer hb hp
      refine ⟨s, a, rfl, ha, hpa, ?_, hg.peer_ne ha hpa⟩
      revert hf hk
      cases a.kind <;> cases b.kind <;> simp [SockKind.Faces, SockKind.isEnd]

/-- `s->close(s)` on a remote socket. -/
theorem wp_callClose_remote {H : List Nat} {Q : Unit → Core → Prop} (hw : WF ⟨c, H⟩)
    (hb : c.sockets q = some b) (hkr : b.kind = .remoteSocket)
    (hQ : ∀ s a l, c.sockets s = some a → b.peer = some s → a.peer = some q →
      a.kind.isEnd = true → Quiet l → Q () (c.close ⟨s, a, some (q, b), .fromPeer, l⟩))
    (hE : E .exit)
    (hF : ∀ t T, c.transports t = some T → T.InUse → c.canWrite t T = false →
      E (.closedPipe t))
    (hU : ∀ x ∈ c.jdwpTrackersList, c.sockets x = none → E (.useAfterFree x)) :
    wp (callClose q) Q E c := by
  have hg : Graph c := hw.graph
  obtain ⟨s, a, hp, hs, hpa, hk, hne⟩ := hg.far_end hb (by simp [hkr, SockKind.isEnd])
  obtain ⟨t, T, hbt, hT, hm⟩ := hg.remote hb hkr
  have huse : T.InUse := .inl (List.ne_nil_of_mem hm)
  have hnew : ∀ x ∈ addrs a.queue, c.newPkt.livePkts x = true := by
    intro x hx
    have hlive := hw.live_queue hs x hx
    simp [Core.newPkt, hw.ne_nextPkt hlive, hlive]
  rw [callClose, closeDepth, callCloseDepth, callCloseWith, wp_bind]
  refine (wp_getSock_of hb).mpr ?_
  rw [hkr]
  simp only [remoteSocketClose]
  rw [wp_bind]
  refine (wp_getSock_of hb).mpr ?_
  rw [wp_bind, wp_getApacket, hp]
  simp only
  rw [wp_bind]
  refine (wp_getSock_of (by exact hs)).mpr ?_
  rw [wp_bind]
  refine (wp_modSock_of (by exact hs)).mpr ?_
  rw [wp_bind]
  refine wp_closeEnd_detached hw hs hk (d := c.newPkt) rfl rfl rfl rfl hnew
    (fun l hl => ?_) hE hU
  rw [pure_bind]
  have hsock (x : SockId) (hx : x ≠ s) :
    ((c.newPkt.putSock s (some { a with peer := none })).close
      ⟨s, { a with peer := none }, none, .call, l⟩).sockets x = c.sockets x := by
    simp [Core.close, Core.putSock, Core.newPkt, hx]
  refine wp_remoteEnd (t := t) (T := T) ⟨(hsock q hne).trans hb, hbt, ?_, fun x hx => ?_⟩
    (fun _ => ?_) (hF t T hT huse)
  · rw [Core.close_transports_none (by simp [Close.remote])]
    exact hT
  · obtain ⟨d, hd, hkd, -⟩ := (hg.disconnects hT).2 x hx
    have hxs : x ≠ s := by
      rintro rfl
      obtain rfl : a = d := Option.some.inj (hs.symm.trans hd)
      simp [hkd, SockKind.isEnd] at hk
    simp [hsock x hxs, hd]
  · have heq := close_end_first (l := l) hne hkr hbt hT
      fun x hx => hw.ne_nextPkt (hw.live_queue hs x hx)
    exact (congrArg (Q ()) heq).mpr (hQ s a _ hs hp hpa hk (by simp [hl, Obs.subject]))

/-- `s->close(s)` on a smart socket. -/
theorem wp_callClose_smart {H : List Nat} {Q : Unit → Core → Prop} (hw : WF ⟨c, H⟩)
    (hb : c.sockets q = some b) (hks : b.kind = .smartSocket)
    (hQ : ∀ s a l, c.sockets s = some a → b.peer = some s → a.peer = some q →
      a.kind.isEnd = true → Quiet l → Q () (c.close ⟨s, a, some (q, b), .fromPeer, l⟩))
    (hE : E .exit)
    (hU : ∀ x ∈ c.jdwpTrackersList, c.sockets x = none → E (.useAfterFree x)) :
    wp (callClose q) Q E c := by
  have hg : Graph c := hw.graph
  obtain ⟨s, a, hp, hs, hpa, hk, hne⟩ := hg.far_end hb (by simp [hks, SockKind.isEnd])
  have hhead : ∀ x ∈ addrs b.queue.head?.toList, x ∈ addrs b.queue := by
    intro x hx
    cases hbq : b.queue with
    | nil => simp [hbq] at hx
    | cons p l => simp_all
  have hfree : ∀ x ∈ addrs a.queue,
      (c.freePkts (addrs b.queue.head?.toList)).livePkts x = true := by
    intro x hx
    have hnot : x ∉ addrs b.queue.head?.toList := by
      intro hx'
      have hsq : Owner.queue s = .queue q := hw.pkts.unique (x := x)
        (by simpa [Work.ledger, Work.held, hs] using hx)
        (by simpa [Work.ledger, Work.held, hb] using hhead x hx')
      exact hne (by simpa using hsq.symm)
    simp [Core.freePkts, hnot, hw.live_queue hs x hx]
  rw [callClose, closeDepth, callCloseDepth, callCloseWith, wp_bind]
  refine (wp_getSock_of hb).mpr ?_
  rw [hks]
  simp only [smartSocketClose]
  rw [wp_bind]
  refine (wp_getSock_of hb).mpr ?_
  rw [wp_bind, wp_putApackets (by cases b.queue.head? <;> simp)
    fun x hx => hw.live_queue hb x (hhead x hx), hp]
  simp only
  rw [wp_bind]
  refine (wp_modSock_of (by exact hs)).mpr ?_
  rw [wp_bind]
  refine wp_closeEnd_detached hw hs hk (d := c.freePkts (addrs b.queue.head?.toList))
    rfl rfl rfl
    rfl hfree (fun l hl => ?_) hE hU
  rw [wp_bind]
  refine (wp_modSock_of (a := b) ?_).mpr ?_
  · simp [Core.close, Core.putSock, Core.freePkts, hne, hb]
  refine (wp_freeSock_of (a := { b with peer := none }) (by simp [Core.putSock])).mpr ?_
  have heq := close_smart_last (c := c) (a := a) (l := l) (z := some { b with peer := none })
    hne hks
  exact (congrArg (Q ()) heq).mpr (hQ s a l hs hp hpa hk hl)

/-- `remote_socket_disconnect`. -/
theorem wp_remoteSocketDisconnect {H : List Nat} {Q : Unit → Core → Prop} (hw : WF ⟨c, H⟩)
    (hb : c.sockets q = some b) (hkr : b.kind = .remoteSocket)
    (hQ : ∀ s a l, c.sockets s = some a → b.peer = some s → a.peer = some q →
      a.kind.isEnd = true → Quiet l → Q () (c.close ⟨s, a, some (q, b), .disconnect, l⟩))
    (hE : E .exit)
    (hU : ∀ x ∈ c.jdwpTrackersList, c.sockets x = none → E (.useAfterFree x)) :
    wp (remoteSocketDisconnect callClose q) Q E c := by
  have hg : Graph c := hw.graph
  obtain ⟨s, a, hp, hs, hpa, hk, hne⟩ := hg.far_end hb (by simp [hkr, SockKind.isEnd])
  obtain ⟨t, T, hbt, hT, -⟩ := hg.remote hb hkr
  rw [remoteSocketDisconnect, wp_bind]
  refine (wp_getSock_of hb).mpr ?_
  rw [hp]
  simp only
  rw [wp_bind]
  refine (wp_modSock_of hs).mpr ?_
  rw [wp_bind]
  refine wp_closeEnd_detached (n := 1) hw hs hk (d := c) rfl rfl rfl rfl (hw.live_queue hs)
    (fun l hl => ?_) hE hU
  have hsock (x : SockId) (hx : x ≠ s) : ((c.putSock s (some { a with peer := none })).close
      ⟨s, { a with peer := none }, none, .call, l⟩).sockets x = c.sockets x := by
    simp [Core.close, Core.putSock, hx]
  refine wp_remoteGone (t := t) (T := T) ⟨(hsock q hne).trans hb, hbt, ?_, fun x hx => ?_⟩ ?_
  · rw [Core.close_transports_none (by simp [Close.remote])]
    exact hT
  · obtain ⟨d, hd, hkd, -⟩ := (hg.disconnects hT).2 x hx
    have hxs : x ≠ s := by
      rintro rfl
      obtain rfl : a = d := Option.some.inj (hs.symm.trans hd)
      simp [hkd, SockKind.isEnd] at hk
    simp [hsock x hxs, hd]
  · have heq := close_disconnected (c := c) (a := a) (l := l) hne hkr hbt hT
    exact (congrArg (Q ()) heq).mpr (hQ s a l hs hp hpa hk hl)

/-! ### Closing as an operation -/

/-- The peer that goes with a socket, as its own record names it. -/
theorem Graph.farOf_fst (hg : Graph c) (hs : c.sockets s = some a) :
    a.peer = (c.farOf a).map (·.1) := by
  cases hp : a.peer with
  | none => simp [Core.farOf, hp]
  | some q =>
      obtain ⟨b, hb, -⟩ := hg.peer hs hp
      simp [Core.farOf, hp, hb]

theorem Core.farOf_sockets {o : SockId} (h : c.farOf a = some (o, b)) :
    c.sockets o = some b := by
  simp only [Core.farOf, Option.bind_eq_some_iff, Option.map_eq_some_iff] at h
  obtain ⟨q, -, b', hb', heq⟩ := h
  obtain ⟨rfl, rfl⟩ := Prod.mk.inj heq
  exact hb'

variable {P : Work → Op → Prop} {w : Work}

/-- The ways in which a local end is closed by a call on itself. -/
theorem Does.closeEnd (hs : w.core.sockets s = some a) (hk : a.kind.isEnd = true)
    {v : CloseWay} (hh : v = .call ∨ v = .eof)
    (hP : ∀ l, P w (.close ⟨s, a, w.core.farOf a, v, l⟩)) :
    Does P w (callClose s) fun _ w' =>
      ∃ l, w' = Op.apply (.close ⟨s, a, w.core.farOf a, v, l⟩) w := by
  intro hw
  refine wp_callClose_end (H := w.hand) hw hs hk (fun l hl => ?_) (Does.excused trivial)
    (fun t T hT hu ho => Does.excused ⟨T, hT, ho, fun _ => hu⟩) fun x hx hn =>
      Does.excused ⟨hx, hn⟩
  have heq : w.core.close ⟨s, a, w.core.farOf a, .call, l⟩ =
      w.core.close ⟨s, a, w.core.farOf a, v, l⟩ := by
    rcases hh with rfl | rfl
    · rfl
    · exact Core.close_how _ _ _ _ (by simp) (by simp) (.inr (by simp))
  rw [heq]
  have hgd : Op.Guard w (.close ⟨s, a, w.core.farOf a, v, l⟩) :=
    ⟨hs, hk, hw.graph.farOf_fst hs, hl, fun _ _ => Core.farOf_sockets⟩
  exact ⟨w.hand, Ops.one _ hgd (hP l), l, rfl⟩

/-- A stream is closed by a call on its far end. -/
theorem Does.closeFar (hb : w.core.sockets q = some b) (hk : b.kind.isEnd = false)
    (hP : ∀ s a l, w.core.sockets s = some a → b.peer = some s →
      P w (.close ⟨s, a, some (q, b), .fromPeer, l⟩)) :
    Does P w (callClose q) fun _ w' => ∃ s a l, w.core.sockets s = some a ∧ b.peer = some s ∧
      w' = Op.apply (.close ⟨s, a, some (q, b), .fromPeer, l⟩) w := by
  intro hw
  have hgd (s : SockId) (a : ASocket) (l : List Obs) (hs : w.core.sockets s = some a)
      (hpa : a.peer = some q) (hka : a.kind.isEnd = true) (hl : Quiet l) :
      Op.Guard w (.close ⟨s, a, some (q, b), .fromPeer, l⟩) := by
    refine ⟨hs, hka, hpa, hl, fun o b' h => ?_⟩
    obtain ⟨rfl, rfl⟩ := Prod.mk.inj (Option.some.inj h)
    exact hb
  by_cases hkr : b.kind = .remoteSocket
  · exact wp_callClose_remote (H := w.hand) hw hb hkr
      (fun s a l hs hp hpa hka hl =>
        ⟨w.hand, Ops.one _ (hgd s a l hs hpa hka hl) (hP s a l hs hp), s, a, l, hs, hp, rfl⟩)
      (Does.excused trivial) (fun t T hT hu ho => Does.excused ⟨T, hT, ho, fun _ => hu⟩)
      fun x hx hn => Does.excused ⟨hx, hn⟩
  · have hks : b.kind = .smartSocket := by
      revert hk hkr
      cases b.kind <;> simp [SockKind.isEnd]
    exact wp_callClose_smart (H := w.hand) hw hb hks
      (fun s a l hs hp hpa hka hl =>
        ⟨w.hand, Ops.one _ (hgd s a l hs hpa hka hl) (hP s a l hs hp), s, a, l, hs, hp, rfl⟩)
      (Does.excused trivial) fun x hx hn => Does.excused ⟨hx, hn⟩

/-- `close_all_sockets` closes a local end. -/
theorem Does.closeLocked (hs : w.core.sockets s = some a) (hk : a.kind.isEnd = true)
    (hP : ∀ l, P w (.close ⟨s, a, w.core.farOf a, .locked, l⟩)) :
    Does P w (localSocketCloseLocked (callCloseDepth closeDepth) s) fun _ w' =>
      ∃ l, w' = Op.apply (.close ⟨s, a, w.core.farOf a, .locked, l⟩) w := by
  intro hw
  refine wp_localSocketCloseLocked (H := w.hand) (n := 2) hw hs hk (fun l hl => ?_)
    (Does.excused trivial) fun t T hT hu ho => Does.excused ⟨T, hT, ho, fun _ => hu⟩
  have hgd : Op.Guard w (.close ⟨s, a, w.core.farOf a, .locked, l⟩) :=
    ⟨hs, hk, hw.graph.farOf_fst hs, hl, fun _ _ => Core.farOf_sockets⟩
  exact ⟨w.hand, Ops.one _ hgd (hP l), l, rfl⟩

/-- `run_transport_disconnects` closes the stream of a remote socket. -/
theorem Does.disconnect (hb : w.core.sockets q = some b) (hkr : b.kind = .remoteSocket)
    (hP : ∀ s a l, w.core.sockets s = some a → b.peer = some s →
      P w (.close ⟨s, a, some (q, b), .disconnect, l⟩)) :
    Does P w (remoteSocketDisconnect callClose q) fun _ w' =>
      ∃ s a l, w.core.sockets s = some a ∧ b.peer = some s ∧
        w' = Op.apply (.close ⟨s, a, some (q, b), .disconnect, l⟩) w := by
  intro hw
  refine wp_remoteSocketDisconnect (H := w.hand) hw hb hkr (fun s a l hs hp hpa hka hl => ?_)
    (Does.excused trivial) fun x hx hn => Does.excused ⟨hx, hn⟩
  have hgd : Op.Guard w (.close ⟨s, a, some (q, b), .disconnect, l⟩) := by
    refine ⟨hs, hka, hpa, hl, fun o b' h => ?_⟩
    obtain ⟨rfl, rfl⟩ := Prod.mk.inj (Option.some.inj h)
    exact hb
  exact ⟨w.hand, Ops.one _ hgd (hP s a l hs hp), s, a, l, hs, hp, rfl⟩

end Adbd
