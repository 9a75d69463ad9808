import Adbd.Tasks

/-!
# The Handlers of Sockets

The functions of `sockets.c` and `jdwp_service.c` other than the `close` functions, as
sequences of operations: what a callback on a descriptor does, what `ready` and `enqueue`
do, and how the list of the local sockets is walked.

## Main results

* `Does.find`: `find_local_socket`.
* `Does.jdwpReady`, `Does.jdwpEnqueue`: the functions of the JDWP sockets.
* `Does.writeEvent`, `Does.readEvent`: the two branches of `local_socket_event_func`.
* `Does.closeAllSockets`: `close_all_sockets`, which ends.
-/

namespace Adbd

open Program Custody

variable {c c₀ : Core} {s q : SockId} {a b : ASocket} {E : Fault → Prop}

/-! ### Rules for handlers that perform an operation -/

namespace Does

variable {α β : Type} {P : Work → Op → Prop} {w : Work} {R : β → Work → Prop}

/-- A handler that starts with the operation `o`. -/
theorem op {m : M α} {f : α → M β} {r : α} (o : Op) (hg : WF w → o.Guard w) (hP : P w o)
    (hm : m w.core = .ok (r, o.effect w.core)) (h : Does P (o.apply w) (f r) R) :
    Does P w (m >>= f) R := by
  intro hw
  rw [wp_bind]
  simp only [wp, hm]
  exact after o hw (hg hw) hP h

/-- A handler that is the operation `o`. -/
theorem last {m : M β} {r : β} (o : Op) (hg : WF w → o.Guard w) (hP : P w o)
    (hm : m w.core = .ok (r, o.effect w.core)) (hQ : R r (o.apply w)) : Does P w m R := by
  intro hw
  simp only [wp, hm]
  exact ⟨o.handle w, Ops.one o (hg hw) hP, hQ⟩

/-- A handler that starts with `put_apacket` of a packet it holds. -/
theorem putApacket {p : APacket} {f : Unit → M β} (hp : p.addr ∈ w.hand)
    (hP : P w (.freePkt p.addr)) (h : Does P ((Op.freePkt p.addr).apply w) (f ()) R) :
    Does P w (Adbd.putApacket p >>= f) R := by
  intro hw
  have hl : w.core.livePkts p.addr = true := hw.pkts.live (o := .hand) hp
  rw [wp_bind, wp_putApacket hl]
  exact after (.freePkt p.addr) hw hp hP h

/-- `put_apacket` of a packet the handler holds. -/
theorem free {p : APacket} (hp : p.addr ∈ w.hand) (hP : P w (.freePkt p.addr)) :
    Does P w (Adbd.putApacket p) fun _ w' => w'.hand = w.hand.erase p.addr := by
  intro hw
  rw [wp_putApacket (hw.pkts.live (o := .hand) hp)]
  exact ⟨_, Ops.one (.freePkt p.addr) hp hP, rfl⟩

/-- A handler that starts by following a peer pointer that is not null. -/
theorem peerOf {f : SockId → M β} (hs : w.core.sockets s = some a) (hp : a.peer = some q)
    (h : Does P w (f q) R) : Does P w (Adbd.peerOf s >>= f) R := by
  intro hw
  rw [wp_bind, Adbd.peerOf, wp_bind]
  refine (wp_getSock_of hs).mpr ?_
  rw [hp]
  exact h hw

/-- A handler that starts by allocating a packet with data. -/
theorem dataPacket {bs : List UInt8} {f : APacket → M β} (hP : P w .newPkt)
    (h : Does P (Op.newPkt.apply w)
      (f { addr := w.core.nextPkt, data := bs, len := bs.length }) R) :
    Does P w (Adbd.dataPacket bs >>= f) R :=
  op .newPkt (fun _ => trivial) hP rfl h

/-- Consistent data at the start of a handler may be used. -/
theorem wf {m : M β} (h : WF w → Does P w m R) : Does P w m R := fun hw => h hw hw

end Does

/-- A handler whose only outcome is known returns it. -/
theorem eq_ok_of_wp {m : M Unit} {c' : Core}
    (h : wp m (fun _ x => x = c') (fun _ => False) c) :
    m c = .ok ((), c') := by
  cases hm : m c with
  | error e => simp [wp, hm] at h
  | ok r =>
      simp only [wp, hm] at h
      rw [← h]

/-- Writing to a live socket. -/
theorem modSock_eq {f : ASocket → ASocket} (hs : c.sockets s = some a) :
    modSock s f c = .ok ((), c.putSock s (some (f a))) :=
  eq_ok_of_wp ((wp_modSock_of hs).mpr rfl)

/-- Writing to a live transport. -/
theorem modTransport_eq {f : ATransport → ATransport} {t : TId} {T : ATransport}
    (hT : c.transports t = some T) :
    modTransport t f c = .ok ((), c.putTransport t (some (f T))) :=
  eq_ok_of_wp ((wp_modTransport_of hT).mpr rfl)

/-- Following the pointer to a live transport. -/
theorem getTransport_eq {t : TId} {T : ATransport} (hT : c.transports t = some T) :
    getTransport t c = .ok (T, c) := by
  rw [getTransport, bind_ok (m := MonadState.get) rfl, hT]
  rfl

/-- Following the pointer to a live socket. -/
theorem getSock_eq (hs : c.sockets s = some a) : getSock s c = .ok (a, c) := by
  rw [getSock, bind_ok (m := MonadState.get) rfl, hs]
  rfl

/-- A pointer that could be followed is one to a live socket. -/
theorem getSock_ok {c' : Core} (h : getSock s c = .ok (a, c')) :
    c' = c ∧ c.sockets s = some a := by
  cases hs : c.sockets s with
  | none =>
      rw [getSock, bind_ok (m := MonadState.get) rfl, hs] at h
      cases h
  | some b =>
      rw [getSock_eq hs] at h
      obtain ⟨rfl, rfl⟩ := Prod.mk.inj (Except.ok.inj h)
      exact ⟨rfl, rfl⟩

theorem getTransport_ok {t : TId} {T : ATransport} {c' : Core}
    (h : getTransport t c = .ok (T, c')) : c' = c ∧ c.transports t = some T := by
  cases hT : c.transports t with
  | none =>
      rw [getTransport, bind_ok (m := MonadState.get) rfl, hT] at h
      cases h
  | some T' =>
      rw [getTransport_eq hT] at h
      obtain ⟨rfl, rfl⟩ := Prod.mk.inj (Except.ok.inj h)
      exact ⟨rfl, rfl⟩

/-! ### The list of local sockets -/

/-- What `find_local_socket` finds is a socket of the list with the id it looks for. -/
theorem Graph.find_some (hg : Graph c) {id : UInt32} (h : c.find id = some s) :
    ∃ a, c.sockets s = some a ∧ a.kind.isEnd = true ∧ a.closing = false ∧ a.id = id := by
  have hm : s ∈ c.localSocketList := List.mem_of_find?_eq_some h
  obtain ⟨a, hs, hk, hc⟩ := (hg.mem_list s).mp hm
  have hid := List.find?_some h
  simp only [hs, Option.any_some, decide_eq_true_eq] at hid
  exact ⟨a, hs, hk, hc, hid⟩

/-- `find_local_socket`. -/
theorem wp_findLocalSocket_of {Q : Option SockId → Core → Prop} {id : UInt32}
    (hl : ∀ x ∈ c.localSocketList, c.sockets x ≠ none) :
    wp (findLocalSocket id) Q E c ↔ Q (c.find id) c := by
  have walk (l : List SockId) (hl : ∀ x ∈ l, c.sockets x ≠ none) :
      wp (findFrom id l) Q E c ↔ Q (l.find? fun s => (c.sockets s).any (·.id = id)) c := by
    induction l with
    | nil => simp [findFrom]
    | cons x l ih =>
        obtain ⟨d, hd⟩ := Option.ne_none_iff_exists'.mp (hl x (by simp))
        rw [findFrom, wp_bind, wp_getSock_of hd, wp_ite, List.find?_cons]
        by_cases hid : d.id = id
        · simp [hd, hid]
        · simp [hd, hid, ih fun y hy => hl y (by simp [hy])]
  rw [findLocalSocket, wp_bind, wp_get]
  exact walk _ hl

theorem wp_findLocalSocket {Q : Option SockId → Core → Prop} (hg : Graph c) {id : UInt32} :
    wp (findLocalSocket id) Q E c ↔ Q (c.find id) c := by
  refine wp_findLocalSocket_of fun x hx => ?_
  obtain ⟨d, hd, -⟩ := (hg.mem_list x).mp hx
  simp [hd]

/-- A handler that starts by looking for a local socket. -/
theorem Does.find {β : Type} {P : Work → Op → Prop} {w : Work} {R : β → Work → Prop}
    {id : UInt32} {f : Option SockId → M β} (h : Does P w (f (w.core.find id)) R) :
    Does P w (findLocalSocket id >>= f) R := by
  intro hw
  rw [wp_bind, wp_findLocalSocket hw.graph]
  exact h hw

/-! ### The functions of a remote socket -/

/-- The `WRTE` packet `remote_socket_enqueue` sends. -/
def wrtePacket (p : APacket) (arg0 arg1 : UInt32) : APacket :=
  APacket.finish { p with msg := { p.msg with
    command := A_WRTE, arg0 := arg0, arg1 := arg1, dataLength := UInt32.ofNat p.len } }

@[simp] theorem wrtePacket_addr (p : APacket) (arg0 arg1 : UInt32) :
    (wrtePacket p arg0 arg1).addr = p.addr := rfl

@[simp] theorem wrtePacket_command (p : APacket) (arg0 arg1 : UInt32) :
    (wrtePacket p arg0 arg1).msg.command = A_WRTE := rfl

/-- A remote socket, its local end and its transport. -/
structure RemoteOf (c : Core) (q : SockId) (b : ASocket) (s : SockId) (a : ASocket) (t : TId)
    (T : ATransport) : Prop where
  sock : c.sockets q = some b
  kind : b.kind = .remoteSocket
  peer : b.peer = some s
  near : c.sockets s = some a
  transport : b.transport = some t
  live : c.transports t = some T

/-- A local socket with a peer does not wait for an `OKAY`. -/
theorem Graph.localSocket_of_peer (hg : Graph c) (hs : c.sockets s = some a)
    (hl : a.kind.isLocal = true) (hp : a.peer = some q) : a.kind = .localSocket := by
  have hnn : a.kind ≠ .localNotify := fun hn => by
    simp [(hg.shape hs).peer.mpr (.inl hn)] at hp
  revert hl hnn
  cases a.kind <;> simp [SockKind.isLocal]

/-- The remote socket at the other end of a JDWP socket. -/
theorem Graph.remoteOf (hg : Graph c) (hs : c.sockets s = some a) (hp : a.peer = some q)
    (hb : c.sockets q = some b) (hk : b.kind = .remoteSocket) :
    ∃ t T, RemoteOf c q b s a t T := by
  obtain ⟨t, T, ht, hT, -⟩ := hg.remote hb hk
  obtain ⟨b', hb', hpb, -⟩ := hg.peer hs hp
  obtain rfl : b = b' := Option.some.inj (hb.symm.trans hb')
  exact ⟨t, T, hb, hk, hpb, hs, ht, hT⟩

/-- The transport of a remote socket is in use. -/
theorem Graph.inUse (hg : Graph c) {t : TId} {T : ATransport} (hb : c.sockets q = some b)
    (hk : b.kind = .remoteSocket) (ht : b.transport = some t) (hT : c.transports t = some T) :
    T.InUse := by
  have hm := (hg.disconnect_iff hT hb).mpr ⟨hk, ht⟩
  exact .inl (List.ne_nil_of_mem hm)

/-- `remote_socket_enqueue`. -/
theorem wp_enqueue_remote {Q : Int → Core → Prop} {t : TId} {T : ATransport} {p : APacket}
    (h : RemoteOf c q b s a t T)
    (hQ : Q 1 ((c.push t T (wrtePacket p a.id b.id)).note
      (.sent t (some s) (wrtePacket p a.id b.id).msg)))
    (hE : c.canWrite t T = false → E (.closedPipe t)) : wp (callEnqueue q p) Q E c := by
  rw [callEnqueue, wp_bind]
  refine (wp_getSock_of h.sock).mpr ?_
  rw [h.kind]
  simp only [remoteSocketEnqueue, peerOf]
  rw [wp_bind]
  refine (wp_getSock_of h.sock).mpr ?_
  rw [wp_bind, wp_bind]
  refine (wp_getSock_of h.sock).mpr ?_
  rw [h.peer]
  simp only [wp_pure]
  rw [wp_bind]
  refine (wp_getSock_of h.near).mpr ?_
  rw [wp_bind, h.transport, wp_sendPacket]
  refine ⟨fun T' hT' => ?_, fun hn => by simp [h.live] at hn⟩
  obtain rfl : T = T' := Option.some.inj (h.live.symm.trans hT')
  split
  · exact hQ
  · next ho => exact hE (by simpa using ho)

/-- Sending an `OKAY` for a local socket. -/
theorem wp_sendOkay {Q : Unit → Core → Prop} {loc rem : UInt32}
    (hQ : ∀ T, c.transports t = some T → c.canWrite t T = true →
      Q () (c.sendNew t T (some s) fun x => ctlPacket x A_OKAY loc rem))
    (hE : ∀ T, c.transports t = some T → c.canWrite t T = false → E (.closedPipe t))
    (hn : c.transports t = none → E (.staleTransport t)) :
    wp (sendMsg A_OKAY loc rem (some t) (some s)) Q E c := by
  rw [sendMsg, wp_bind, wp_getApacket, wp_sendPacket]
  refine ⟨fun T hT => ?_, hn⟩
  split
  · next ho => exact hQ T hT ho
  · next ho => exact hE T hT (eq_false_of_ne_true ho)

/-- `remote_socket_ready`. -/
theorem wp_ready_remote {Q : Unit → Core → Prop} {t : TId} {T : ATransport}
    (h : RemoteOf c q b s a t T)
    (hQ : Q () (c.sendNew t T (some s) fun x => ctlPacket x A_OKAY a.id b.id))
    (hE : c.canWrite t T = false → E (.closedPipe t)) :
    wp (callReady q) Q E c := by
  rw [callReady, wp_bind]
  refine (wp_getSock_of h.sock).mpr ?_
  rw [h.kind]
  simp only [remoteSocketReady, peerOf]
  rw [wp_bind]
  refine (wp_getSock_of h.sock).mpr ?_
  rw [wp_bind, wp_bind]
  refine (wp_getSock_of h.sock).mpr ?_
  rw [h.peer]
  simp only [wp_pure]
  rw [wp_bind]
  refine (wp_getSock_of h.near).mpr ?_
  rw [h.transport]
  refine wp_sendOkay (fun T' hT' _ => ?_) (fun T' hT' ho => ?_) fun hn => ?_
  · obtain rfl : T = T' := Option.some.inj (h.live.symm.trans hT')
    exact hQ
  · obtain rfl : T = T' := Option.some.inj (h.live.symm.trans hT')
    exact hE ho
  · exact absurd (h.live.symm.trans hn) (by simp)

/-! ### The JDWP sockets -/

/-- A handler that starts with a JDWP socket handing a packet to its peer. -/
theorem Does.enqueueList {β : Type} {P : Work → Op → Prop} {w : Work} {R : β → Work → Prop}
    {t : TId} {T : ATransport} {p : APacket} {f : Int → M β} (h : RemoteOf w.core q b s a t T)
    (hj : a.kind.isJdwp = true) (hp : p.addr ∈ w.hand)
    (hP : P w (.sendList s t T (wrtePacket p a.id b.id)))
    (hf : Does P ((Op.sendList s t T (wrtePacket p a.id b.id)).apply w) (f 1) R) :
    Does P w (callEnqueue q p >>= f) R := by
  intro hw
  rw [wp_bind]
  exact wp_enqueue_remote h (Does.after (.sendList s t T (wrtePacket p a.id b.id)) hw
    ⟨h.live, hp, ⟨a, h.near, hj⟩, q, b, h.sock, h.kind, h.transport⟩ hP hf) fun ho =>
      Does.excused ⟨T, h.live, ho, fun _ => hw.graph.inUse h.sock h.kind h.transport h.live⟩

/-- The peer of a JDWP socket is a remote socket. -/
theorem Graph.jdwp_peer (hg : Graph c) (hs : c.sockets s = some a)
    (hj : a.kind.isJdwp = true) :
    ∃ q b, a.peer = some q ∧ c.sockets q = some b ∧ b.kind = .remoteSocket := by
  have hsh := hg.shape hs
  cases hp : a.peer with
  | none =>
      rcases hsh.peer.mp hp with hn | hc
      · simp [hn, SockKind.isJdwp] at hj
      · have hl := (hsh.closing hc).1
        revert hl hj
        cases a.kind <;> simp [SockKind.isLocal, SockKind.isJdwp]
  | some q =>
      obtain ⟨b, hb, -, hf⟩ := hg.peer hs hp
      refine ⟨q, b, rfl, hb, ?_⟩
      revert hf hj
      cases a.kind <;> cases b.kind <;> simp [SockKind.isJdwp, SockKind.Faces]

/-- Closing a JDWP socket by a call on its peer. -/
theorem Does.closeJdwpPeer {k : Task} {w : Work} (hg : Graph w.core)
    (hs : w.core.sockets s = some a) (hj : a.kind.isJdwp = true) (hp : a.peer = some q)
    (hk : ∃ t p, k = .packet t p ∧ (p.msg.command = A_OKAY ∨ p.msg.command = A_WRTE) ∧
      c₀.find p.msg.arg1 = some s) :
    Does (k.May c₀) w (callClose q) fun _ w' => w'.hand = w.hand := by
  obtain ⟨q', b, hp', hb, hkb⟩ := hg.jdwp_peer hs hj
  obtain rfl : q = q' := Option.some.inj (hp.symm.trans hp')
  obtain ⟨b', hb', hpb, -⟩ := hg.peer hs hp
  obtain rfl : b = b' := Option.some.inj (hb.symm.trans hb')
  refine (Does.closeFar hb (by simp [hkb, SockKind.isEnd]) fun s' a' l hs' hpb' => ?_).mono ?_
  · obtain rfl : s = s' := Option.some.inj (hpb.symm.trans hpb')
    obtain rfl : a = a' := Option.some.inj (hs.symm.trans hs')
    exact ⟨by simp, .inr ⟨hj, hk⟩⟩
  · rintro _ w' - ⟨s', a', l, -, -, rfl⟩
    rfl

/-- `jdwp_socket_ready`, `jdwp_tracker_ready`. -/
theorem Does.jdwpReady {k : Task} {w : Work} (hs : w.core.sockets s = some a)
    (hj : a.kind.isJdwp = true) (hserve : k.Serves c₀ s)
    (hk : a.pass = true → ∃ t p, k = .packet t p ∧
      (p.msg.command = A_OKAY ∨ p.msg.command = A_WRTE) ∧ c₀.find p.msg.arg1 = some s) :
    Does (k.May c₀) w (callReady s) fun _ w' => w'.hand = w.hand := by
  refine .wf fun hw => ?_
  obtain ⟨q, b, hp, hb, hkb⟩ := hw.graph.jdwp_peer hs hj
  obtain ⟨t, T, hr⟩ := hw.graph.remoteOf hs hp hb hkb
  rw [callReady]
  refine .getSock hs ?_
  cases hkind : a.kind with
  | jdwpSocket =>
      dsimp only
      rw [jdwpSocketReady]
      refine .getSock hs (.peerOf hs hp ?_)
      by_cases hpass : a.pass = true
      · rw [if_pos hpass]
        exact Does.closeJdwpPeer hw.graph hs hj hp (hk hpass)
      · rw [if_neg hpass]
        refine .get (.dataPacket trivial ?_)
        refine .enqueueList (h := ⟨hr.sock, hkb, hr.peer, hs, hr.transport, hr.live⟩) hj
          (by simp [Op.handle]) ⟨hserve, rfl⟩ ?_
        exact .last (r := ()) (.flags s a true a.needUpdate) (fun _ => ⟨hs, hj⟩) hserve
          (modSock_eq (by exact hs)) (by simp [Op.handle])
  | jdwpTracker =>
      dsimp only
      rw [jdwpTrackerReady]
      refine .getSock hs ?_
      by_cases hn : a.needUpdate = true
      · rw [if_pos hn]
        refine .get (.dataPacket trivial ?_)
        refine .op (r := ()) (.flags s a a.pass false) (fun _ => ⟨hs, hj⟩) hserve
          (modSock_eq (by exact hs)) ?_
        -- the socket's record has changed, but neither its peer nor its id has
        have hne : q ≠ s := hw.graph.peer_ne hs hp
        have hs' : ((Op.flags s a a.pass false).apply (Op.newPkt.apply w)).core.sockets s =
            some { a with needUpdate := false } := by
          simp [Op.effect, Core.putSock]
        refine .peerOf hs' hp ?_
        refine .enqueueList (h := ⟨?_, hkb, hr.peer, hs', hr.transport, hr.live⟩) hj
          (by simp [Op.handle]) ⟨hserve, rfl⟩ (.pure ?_)
        · simpa [Op.effect, Core.putSock, Core.newPkt, hne] using hb
        · simp [Op.handle]
      · rw [if_neg hn]
        exact .pure rfl
  | localSocket | localNotify | remoteSocket | smartSocket =>
      simp [hkind, SockKind.isJdwp] at hj

/-- `jdwp_socket_enqueue`, `jdwp_tracker_enqueue`. -/
theorem Does.jdwpEnqueue {k : Task} {w : Work} {p : APacket} (hs : w.core.sockets s = some a)
    (hj : a.kind.isJdwp = true) (hp : p.addr ∈ w.hand)
    (hk : ∃ t p, k = .packet t p ∧ (p.msg.command = A_OKAY ∨ p.msg.command = A_WRTE) ∧
      c₀.find p.msg.arg1 = some s) :
    Does (k.May c₀) w (callEnqueue s p)
      fun r w' => r = -1 ∧ w'.hand = w.hand.erase p.addr := by
  refine .wf fun hw => ?_
  obtain ⟨q, b, hpq, hb, hkb⟩ := hw.graph.jdwp_peer hs hj
  have hrest : Does (k.May c₀) w (jdwpSocketEnqueue s p)
      fun r w' => r = -1 ∧ w'.hand = w.hand.erase p.addr := by
    rw [jdwpSocketEnqueue]
    refine .putApacket hp trivial (.peerOf hs hpq ?_)
    refine .bind (Does.closeJdwpPeer (hw.op (o := .freePkt p.addr) hp).graph hs hj hpq hk) ?_
    intro _ w' hh
    exact .pure ⟨rfl, hh⟩
  rw [callEnqueue]
  refine .getSock hs ?_
  cases hkind : a.kind with
  | jdwpSocket | jdwpTracker => exact hrest
  | localSocket | localNotify | remoteSocket | smartSocket =>
      simp [hkind, SockKind.isJdwp] at hj

/-! ### Writing out a queue -/

/-- Noting several times that a packet was written completely. -/
theorem wp_noteCompleted {Q : PUnit → Core → Prop} (l : List APacket) :
    wp (l.forM fun _ => note (.completed s)) Q E c ↔
      Q ⟨⟩ { c with log := List.replicate l.length (.completed s) ++ c.log } := by
  induction l generalizing c with
  | nil => simp
  | cons p l ih =>
      change
        wp (note (.completed s) >>= fun _ => l.forM fun _ => note (.completed s)) Q E c ↔ _
      rw [wp_bind, wp_note, ih]
      simp only [Core.note, List.length_cons, List.replicate_succ', List.append_assoc,
        List.singleton_append]

/-- The packets written completely are packets of the queue. -/
theorem drain_done_sublist (ws : List WriteRes) (l : List APacket) :
    (addrs (drain ws l).done).Sublist (addrs l) := by
  have h := drain_addr ws l
  simp only [addrs]
  rw [← h]
  exact List.sublist_append_left _ _

/-- The first part of the `FDE_WRITE` branch: the queue is written out as far as possible. -/
theorem wp_drain {Q : Unit → Core → Prop} {rest : M Unit} (hs : c.sockets s = some a)
    (hn : (addrs a.queue).Nodup) (hl : ∀ x ∈ addrs a.queue, c.livePkts x = true) {d : Drained}
    {ws : List WriteRes} (hd : d = drain ws a.queue)
    (h : wp rest Q E (c.drained s a d)) :
    wp (do
      note (.wrote s d.bytes)
      d.done.forM fun _ => note (.completed s)
      putApackets d.done
      modSock s fun a => { a with queue := d.queue }
      rest) Q E c := by
  subst hd
  have hsub := drain_done_sublist ws a.queue
  rw [wp_bind, wp_note, wp_bind, wp_noteCompleted, wp_bind,
    wp_putApackets (hn.sublist hsub) (by exact fun x hx => hl x (hsub.subset hx)), wp_bind]
  exact (wp_modSock_of (by exact hs)).mpr h

/-- **The `FDE_WRITE` branch of `local_socket_event_func`.** -/
theorem Does.writeEvent {w : Work} (hs : w.core.sockets s = some a)
    (hl : a.kind.isLocal = true) (hq : a.queue ≠ [])
    (he : (w.core.loop.fdes (.sock s)).events = {}) :
    Does ((Task.write s).May w.core) w (localSocketWriteEvent s) fun _ w' =>
      w'.hand = w.hand := by
  intro hw
  have hend : a.kind.isEnd = true := by
    revert hl
    cases a.kind <;> simp [SockKind.isLocal, SockKind.isEnd]
  have hsh := hw.graph.shape hs
  have hlive := hw.live_queue (H := w.hand) hs
  have hok := hw.endOk (H := w.hand) hs (e := w.core) hs rfl rfl rfl
    (fun x b hb _ => by simp [hb])
    hlive
  obtain ⟨d, hd⟩ : ∃ d, d = drain w.core.io.writes a.queue := ⟨_, rfl⟩
  rw [localSocketWriteEvent, wp_bind]
  refine (wp_getSock_of hs).mpr ?_
  rw [wp_bind, wp_get, ← hd]
  dsimp only
  refine wp_drain hs hok.nodup hlive hd ?_
  have hs' : (w.core.drained s a d).sockets s = some { a with queue := d.queue } := by
    simp [Core.drained, Core.freePkts, Core.putSock]
  cases hv : d.verdict with
  | wouldBlock =>
      have hgd : Op.Guard w (.drain s a d) := ⟨hs, hl, ⟨_, hd⟩, by simp [hv], he⟩
      have heff : Op.effect w.core (.drain s a d) = w.core.drained s a d := by
        simp [Op.effect, hv]
      exact ⟨w.hand, heff ▸ Ops.one _ hgd rfl, rfl⟩
  | failed =>
      have hgd : Op.Guard w (.drain s a d) := ⟨hs, hl, ⟨_, hd⟩, by simp [hv], he⟩
      have heff : Op.effect w.core (.drain s a d) =
          (w.core.drained s a d).note (.writeFailed s) := by
        simp [Op.effect, hv]
      simp only [wp_bind, wp_note]
      rw [← heff]
      refine Does.after (P := (Task.write s).May w.core) (Q := fun _ w' => w'.hand = w.hand)
        (.drain s a d) hw hgd rfl ?_
      have hs'' : ((Op.drain s a d).apply w).core.sockets s =
        some { a with queue := d.queue } := by
        rw [Op.apply_core, heff]
        exact hs'
      have hlog : ∃ l, ((Op.drain s a d).apply w).core.log = l ++ w.core.log ∧
          Obs.writeFailed s ∈ l := by
        rw [Op.apply_core, heff]
        exact ⟨.writeFailed s :: (List.replicate d.done.length (.completed s) ++
          [.wrote s d.bytes]), by simp [Core.note, Core.drained], List.mem_cons_self ..⟩
      refine (Does.closeEnd (v := .call) hs'' hend (.inl rfl)
        fun l => .inr ⟨hlog, .inl rfl⟩).mono ?_
      rintro _ w' - ⟨l, rfl⟩
      rfl
  | drained =>
      have hempty : d.queue = [] := by
        rw [hd]
        exact (drain_drained_iff _ _).mp (hd ▸ hv)
      dsimp only
      by_cases hc : a.closing = true
      · -- the last packet of a closing socket is out, and the socket goes
        rw [if_pos hc]
        have hpeer : a.peer = none := hsh.peer.mpr (.inr hc)
        refine wp_closeEnd (n := 1) (a := { a with queue := d.queue })
          ⟨⟨hs', fun x hx => ?_, fun x hx => ?_, hok.once⟩, ?_, ?_⟩ hend hpeer
          (fun hc' => by simp [hc] at hc') (fun hj => ?_) (fun l hquiet => ?_)
          (Does.excused trivial) fun x hx hn => Does.excused ⟨hx, ?_⟩
        · by_cases hxs : x = s
          · simp [hxs, hs']
          · simpa [Core.drained, Core.freePkts, Core.putSock, hxs] using hok.list x hx
        · by_cases hxs : x = s
          · simp [hxs, hs']
          · simpa [Core.drained, Core.freePkts, Core.putSock, hxs] using hok.closing x hx
        · simp [hempty]
        · simp [hempty]
        · revert hl hj
          cases a.kind <;> simp [SockKind.isLocal, SockKind.isJdwp]
        · have hgd : Op.Guard w (.drainDestroy s a d l) := ⟨hs, hl, ⟨_, hd⟩, hv, hc, hquiet⟩
          exact ⟨w.hand, Ops.one _ hgd rfl, rfl⟩
        · by_cases hxs : x = s
          · simp [hxs, hs'] at hn
          · simpa [Core.drained, Core.freePkts, Core.putSock, hxs] using hn
      · -- an open socket stops watching for FDE_WRITE and tells its peer to go on
        rw [if_neg hc]
        simp only [wp_bind, wp_modLoop, Adbd.peerOf]
        refine (wp_getSock_of (by exact hs')).mpr ?_
        dsimp only
        have hc' : a.closing = false := by simpa using hc
        cases hp : a.peer with
        | none =>
            have hk : a.kind = .localNotify := by
              simpa [hc] using hsh.peer.mp hp
            exact Does.excused ⟨a, hs, hk, hc', hq⟩
        | some r =>
            obtain ⟨b, hb, hpb, hf⟩ := hw.graph.peer hs hp
            have hk : a.kind = .localSocket := hw.graph.localSocket_of_peer hs hl hp
            have hne : r ≠ s := hw.graph.peer_ne hs hp
            have hb' : ((w.core.drained s a d).onLoop
                (·.fdeventDel (.sock s) Events.onlyWrite)).sockets r = some b := by
              simpa [Core.drained, Core.freePkts, Core.putSock, hne] using hb
            simp only [wp_pure]
            by_cases hkr : b.kind = .remoteSocket
            · obtain ⟨t, T, hbt, hT, -⟩ := hw.graph.remote hb hkr
              refine wp_ready_remote (a := { a with queue := d.queue }) (b := b) (T := T)
                ⟨hb', hkr, hpb, hs', hbt, hT⟩ ?_ fun ho =>
                  Does.excused ⟨T, hT, ho, fun _ => hw.graph.inUse hb hkr hbt hT⟩
              have hgd : Op.Guard w (.drainReady s a d (some (t, T, b.id))) :=
                ⟨hs, hk, ⟨_, hd⟩, hv, hc', he, r, b, hp, hb, .inr ⟨hkr, t, T, hbt, hT, rfl⟩⟩
              exact ⟨w.hand, Ops.one _ hgd ⟨rfl, hq⟩, rfl⟩
            · have hks : b.kind = .smartSocket := by
                revert hf hkr
                rw [hk]
                cases b.kind <;> simp [SockKind.Faces]
              have hgd : Op.Guard w (.drainReady s a d none) :=
                ⟨hs, hk, ⟨_, hd⟩, hv, hc', he, r, b, hp, hb, .inl ⟨hks, rfl⟩⟩
              rw [callReady, wp_bind]
              refine (wp_getSock_of hb').mpr ?_
              rw [hks]
              exact ⟨w.hand, Ops.one _ hgd ⟨rfl, hq⟩, rfl⟩

/-! ### close_all_sockets -/

/-- `s->transport == t || (s->peer && s->peer->transport == t)`. -/
def Core.belongs (c : Core) (t : TId) (s : SockId) : Bool :=
  (c.sockets s).any fun a =>
    a.transport = some t || (c.farOf a).any fun r => r.2.transport = some t

/-- The test of `close_all_sockets` on a live socket with a live peer, if any. -/
theorem wp_belongsTo {Q : Bool → Core → Prop} {t : TId}
    (hp : ∀ q, a.peer = some q → c.sockets q ≠ none) (hs : c.sockets s = some a) :
    wp (belongsTo t s) Q E c ↔ Q (c.belongs t s) c := by
  rw [belongsTo, wp_bind, wp_getSock_of hs, wp_ite]
  by_cases ht : a.transport = some t
  · simp [Core.belongs, hs, ht]
  · cases hq : a.peer with
    | none => simp [Core.belongs, hs, ht, Core.farOf, hq]
    | some q =>
        obtain ⟨b, hb⟩ := Option.ne_none_iff_exists'.mp (hp q hq)
        simp [Core.belongs, hs, ht, Core.farOf, hq, hb]

/-- The scan of `close_all_sockets`. -/
theorem wp_firstOf {Q : Option SockId → Core → Prop} {t : TId}
    (hp : ∀ {s a q}, c.sockets s = some a → a.peer = some q → c.sockets q ≠ none)
    {l : List SockId} (hl : ∀ x ∈ l, c.sockets x ≠ none) :
    wp (firstOf t l) Q E c ↔ Q (l.find? (c.belongs t)) c := by
  induction l with
  | nil => simp [firstOf]
  | cons x l ih =>
      obtain ⟨d, hd⟩ := Option.ne_none_iff_exists'.mp (hl x (by simp))
      rw [firstOf, wp_bind, wp_belongsTo (fun q => hp hd) hd, List.find?_cons]
      cases hb : c.belongs t x with
      | true => simp
      | false => simpa using ih fun y hy => hl y (by simp [hy])

/-- A handler that starts with the scan of `close_all_sockets`. -/
theorem Does.firstOf {β : Type} {P : Work → Op → Prop} {w : Work} {R : β → Work → Prop}
    {t : TId} {f : Option SockId → M β}
    (h : Does P w (f (w.core.localSocketList.find? (w.core.belongs t))) R) :
    Does P w (firstOf t w.core.localSocketList >>= f) R := by
  intro hw
  rw [wp_bind, wp_firstOf]
  · exact h hw
  · intro s a q hs hq
    obtain ⟨b, hb, -⟩ := hw.graph.peer hs hq
    simp [hb]
  · intro x hx
    obtain ⟨d, hd, -⟩ := (hw.graph.mem_list x).mp hx
    simp [hd]

/-- A socket that belongs to a transport does so by its own record or by its peer's. -/
theorem Core.belongs_far {t : TId} (hs : c.sockets s = some a) (h : c.belongs t s = true) :
    a.transport = some t ∨ ∃ o b, c.farOf a = some (o, b) ∧ b.transport = some t := by
  simp only [Core.belongs, hs, Option.any_some, Bool.or_eq_true, decide_eq_true_eq] at h
  refine h.imp id fun h => ?_
  cases hfar : c.farOf a with
  | none => simp [hfar] at h
  | some r => exact ⟨r.1, r.2, rfl, by simpa [hfar] using h⟩

/-- The restart loop of `close_all_sockets` ends: each turn takes a socket off the list. -/
theorem Does.closeAllLoop {k : Task} {t : TId} (hk : k = .closeAll t ∨ k = .remove t) (n : Nat)
    {w : Work} (hn : w.core.localSocketList.length < n) :
    Does (k.May c₀) w (closeAllLoop t n) fun _ w' => w'.hand = w.hand ∧
      w.core.SameTransports w'.core ∧
      ∀ s ∈ w'.core.localSocketList, w'.core.belongs t s = false := by
  induction n generalizing w with
  | zero => exact absurd hn (Nat.not_lt_zero _)
  | succ n ih =>
      refine .wf fun hw => ?_
      rw [Adbd.closeAllLoop]
      refine .get (.firstOf ?_)
      cases hf : w.core.localSocketList.find? (w.core.belongs t) with
      | none =>
          refine .pure ⟨rfl, .refl _, fun x hx => ?_⟩
          simpa using List.find?_eq_none.mp hf x hx
      | some s =>
          have hm : s ∈ w.core.localSocketList := List.mem_of_find?_eq_some hf
          obtain ⟨a, hs, hend, -⟩ := (hw.graph.mem_list s).mp hm
          refine .bind (Does.closeLocked hs hend fun l =>
            ⟨hm, t, hk, Core.belongs_far hs (List.find?_some hf)⟩) ?_
          rintro _ w' ⟨l, rfl⟩
          have hlen : (w.core.localSocketList.erase s).length < n := by
            have := List.length_pos_of_mem hm
            rw [List.length_erase_of_mem hm]
            omega
          refine (ih hlen).mono ?_
          rintro _ w'' - ⟨hh, hT, hb⟩
          exact ⟨hh, (w.core.close_sameTransports _).trans hT, hb⟩

/-- **`close_all_sockets`** ends, and leaves no socket of the transport on the list. -/
theorem Does.closeAllSockets {k : Task} {t : TId} (hk : k = .closeAll t ∨ k = .remove t)
    {w : Work} :
    Does (k.May c₀) w (closeAllSockets t) fun _ w' => w'.hand = w.hand ∧
      w.core.SameTransports w'.core ∧
      ∀ s ∈ w'.core.localSocketList, w'.core.belongs t s = false := by
  rw [Adbd.closeAllSockets]
  exact .get (Does.closeAllLoop hk _ (Nat.lt_succ_self _))

end Adbd
