import Adbd.Lifecycle
import Adbd.SmartClient

/-!
# Sessions with the Smart Socket

The callbacks of the main loop that serve a client of the smart socket do what `Client.next`
says: `local_socket_event_func` reads a packet from it and hands it to the smart socket, or to
the remote's socket once the stream is open, and `transport_socket_events` handles the `OKAY`s
for it. Anything else may happen in between.

## Main definitions

* `Client.Shows`: the client, as the memory of the daemon shows it.
* `Elsewhere`: what may happen between two events of the client.
* `ClientSession`: the events of a client, in the memory, with the packets that are sent for
  it.

## Main results

* `Client.Shows.event`: every callback returns, and does what `Client.next` says.
* `ClientSession.run`: a session is a run of the client.
* `ClientSession.step_reads`, `ClientSession.step_okay`: the callbacks of the main loop are
  events of it.
* `request_any_split`: what is sent for a request and the bytes behind it, for all ways of
  cutting them into packets; what is not a request is refused.
-/

namespace Adbd

open Program

variable {c c' e : Core} {s ss : SockId} {a b : ASocket} {t : TId} {E : Fault → Prop}
  {got bs : List UInt8} {queue : List APacket} {cl cl' : Client} {ev : ClientEvent}
  {id : UInt32}

/-! ### The memory of a client -/

/-- The local socket of a client, with its record. `FDE_READ` is watched for if `reading`. -/
structure IsClient (c : Core) (s : SockId) (id : UInt32) (a : ASocket) (reading : Bool) :
    Prop where
  sock : c.sockets s = some a
  kind : a.kind.isLocal = true
  ident : a.id = id
  stays : a.exitOnClose = false
  watched : (c.loop.fdes (.sock s)).interest.read = reading
  unforced : (c.loop.fdes (.sock s)).forceEof = false

/-- The bytes a smart socket has collected. -/
def Holds : List APacket → List UInt8 → Prop
  | [], got => got = []
  | p :: _, got => p.data = got ∧ p.len = got.length

/-- The client is one end of a stream, whose other end has the number `remote` there. -/
def Streams (c : Core) (s : SockId) (id : UInt32) (t : TId) (remote : UInt32)
    (reading : Bool) : Prop :=
  ∃ a q b, IsClient c s id a reading ∧ a.peer = some q ∧ c.sockets q = some b ∧
    b.kind = .remoteSocket ∧ b.id = remote ∧ b.transport = some t

/-- **The client, as the memory shows it.** -/
def Client.Shows (c : Core) (s : SockId) (id : UInt32) (t : TId) : Client → Prop
  | .collecting got =>
      ∃ a ss b, IsClient c s id a true ∧ a.peer = some ss ∧ c.sockets ss = some b ∧
        b.kind = .smartSocket ∧ b.transport = none ∧ Holds b.queue got
  | .asked => ∃ a, IsClient c s id a false ∧ a.peer = none ∧ a.closing = false
  | .ready remote => Streams c s id t remote true
  | .blocked remote => Streams c s id t remote false
  | .refused => s ∉ c.localSocketList

/-- **What may happen between two events of a client**: anything that keeps the data
consistent, queues data for the client at most, and leaves its peer alone. -/
structure Elsewhere (s : SockId) (c c' : Core) : Prop where
  wf : WF ⟨c', []⟩
  sock : ∀ a, c.sockets s = some a → ∃ queue, c'.sockets s = some { a with queue := queue }
  peer : ∀ a q, c.sockets s = some a → a.peer = some q → c'.sockets q = c.sockets q
  gone : s ∉ c.localSocketList → s ∉ c'.localSocketList
  watched : (c'.loop.fdes (.sock s)).interest.read = (c.loop.fdes (.sock s)).interest.read
  unforced : (c'.loop.fdes (.sock s)).forceEof = (c.loop.fdes (.sock s)).forceEof

theorem IsClient.congr {reading : Bool} (h : IsClient c s id a reading)
    (hs : c'.sockets = c.sockets) (hl : c'.loop = c.loop) : IsClient c' s id a reading :=
  ⟨(congrFun hs s).trans h.sock, h.kind, h.ident, h.stays, hl ▸ h.watched, hl ▸ h.unforced⟩

theorem Streams.congr {remote : UInt32} {reading : Bool} (h : Streams c s id t remote reading)
    (hs : c'.sockets = c.sockets) (hl : c'.loop = c.loop) :
    Streams c' s id t remote reading := by
  obtain ⟨a, q, b, hc, hp, hb, hk, hid, ht⟩ := h
  exact ⟨a, q, b, hc.congr hs hl, hp, (congrFun hs q).trans hb, hk, hid, ht⟩

theorem Client.Shows.congr (h : cl.Shows c s id t) (hs : c'.sockets = c.sockets)
    (hl : c'.loop = c.loop) (hm : c'.localSocketList = c.localSocketList) :
    cl.Shows c' s id t := by
  cases cl with
  | collecting got =>
      obtain ⟨a, ss, b, hc, hp, hb, h⟩ := h
      exact ⟨a, ss, b, hc.congr hs hl, hp, (congrFun hs ss).trans hb, h⟩
  | asked =>
      obtain ⟨a, hc, h⟩ := h
      exact ⟨a, hc.congr hs hl, h⟩
  | ready r | blocked r => exact Streams.congr h hs hl
  | refused => exact fun h' => h (hm ▸ h')

theorem IsClient.elsewhere {reading : Bool} (h : IsClient c s id a reading)
    (he : Elsewhere s c c') : ∃ queue, IsClient c' s id { a with queue := queue } reading := by
  obtain ⟨queue, hs⟩ := he.sock a h.sock
  exact ⟨queue, hs, h.kind, h.ident, h.stays, he.watched.trans h.watched,
    he.unforced.trans h.unforced⟩

theorem Streams.elsewhere {remote : UInt32} {reading : Bool}
    (h : Streams c s id t remote reading)
    (he : Elsewhere s c c') : Streams c' s id t remote reading := by
  obtain ⟨a, q, b, hc, hp, hb, hk, hid, ht⟩ := h
  obtain ⟨queue, hc'⟩ := hc.elsewhere he
  exact ⟨_, q, b, hc', hp, (he.peer a q hc.sock hp).trans hb, hk, hid, ht⟩

theorem Client.Shows.elsewhere (h : cl.Shows c s id t) (he : Elsewhere s c c') :
    cl.Shows c' s id t := by
  cases cl with
  | collecting got =>
      obtain ⟨a, ss, b, hc, hp, hb, hk, ht, hq⟩ := h
      obtain ⟨queue, hc'⟩ := hc.elsewhere he
      exact ⟨_, ss, b, hc', hp, (he.peer a ss hc.sock hp).trans hb, hk, ht, hq⟩
  | asked =>
      obtain ⟨a, hc, hp, hcl⟩ := h
      obtain ⟨queue, hc'⟩ := hc.elsewhere he
      exact ⟨_, hc', hp, hcl⟩
  | ready remote | blocked remote => exact Streams.elsewhere h he
  | refused => exact he.gone h

/-! ### Events -/

/-- The transport can be opened: `acquire_one_transport` looks for no other. -/
def Core.Accessible (c : Core) (t : TId) : Bool :=
  (c.transports t).any fun T => T.connectionState ≠ .noperm

/-- **One transport is available**: it is the only one that can be opened, and it is not
offline. -/
structure Available (c : Core) (t : TId) : Prop where
  listed : ∀ x ∈ c.transportList, c.transports x ≠ none
  only : c.transportList.filter c.Accessible = [t]
  online : ∃ T, c.transports t = some T ∧ T.connectionState ≠ .offline ∧ T.online = true ∧
    c.canRead t T = true ∧ c.canWrite t T = true

/-- When an event can happen, with the answers of the operating system: a packet is only read
while `FDE_READ` is watched for, and without an end of file; an `OKAY` for the client is the
first packet in the pipe of the transport. -/
def ClientEvent.Happens (c : Core) (s : SockId) (t : TId) (io : Io) : ClientEvent → Prop
  | .reads bs =>
      s ∈ c.localSocketList ∧ (c.loop.fdes (.sock s)).interest.read = true ∧ bs ≠ [] ∧
        ∃ r, readLoop io.reads MAX_PAYLOAD [] = (bs, false, r)
  | .okay remote =>
      ∃ T p rest, c.transports t = some T ∧ T.ioToMain = p :: rest ∧ p.msg.command = A_OKAY ∧
        p.msg.arg0 = remote ∧ c.find p.msg.arg1 = some s

/-- The callback of the main loop. -/
def ClientEvent.callback (s : SockId) (t : TId) (io : Io) : ClientEvent → M Unit
  | .reads _ => do
      modify fun c => { c with io := io }
      localSocketEventFunc s Events.onlyRead
  | .okay _ => do
      modify fun c => { c with io := io }
      transportSocketEvents t Events.onlyRead

/-- The packets handed to the input thread of `t`. -/
def Pushed (t : TId) (c c' : Core) (ps : List APacket) : Prop :=
  (c'.transports t).map (·.mainToIo) = (c.transports t).map (·.mainToIo ++ ps)

/-- The packet that is sent for the client with the given id. -/
def ClientPacket.Is (id : UInt32) (p : APacket) : ClientPacket → Prop
  | .opens destination => p = openPacket id destination p.addr
  | .write remote bs =>
      p = wrtePacket { addr := p.addr, data := bs, len := bs.length } id remote

/-! ### Collecting a request -/

/-- `acquire_one_transport` finds the transport that is available. -/
theorem wp_acquire_available {Q : Option TId × FailReason → Core → Prop} (h : Available c t)
    (hQ : ∀ err, Q (some t, err) c) : wp acquireOneTransport Q E c := by
  have hnone (l : List TId) (hl : ∀ x ∈ l, c.transports x ≠ none)
      (hf : l.filter c.Accessible = []) (r : Option TId) (err : FailReason)
      {Q : Option TId × FailReason → Core → Prop} (hQ : ∀ err, Q (r, err) c) :
      wp (acquireFrom l r err) Q E c := by
    induction l generalizing err with
    | nil => exact hQ err
    | cons x l ih =>
        obtain ⟨T, hT⟩ := Option.ne_none_iff_exists'.mp (hl x (by simp))
        have hstate : T.connectionState = .noperm := by
          by_contra hs
          simp [Core.Accessible, hT, hs] at hf
        rw [List.filter_cons_of_neg (by simp [Core.Accessible, hT, hstate])] at hf
        simp only [acquireFrom, wp_bind]
        refine (wp_getTransport_of hT).mpr ?_
        rw [if_pos hstate]
        exact ih (fun y hy => hl y (by simp [hy])) hf _
  have hone (l : List TId) (hl : ∀ x ∈ l, c.transports x ≠ none)
      (hf : l.filter c.Accessible = [t]) (err : FailReason)
      {Q : Option TId × FailReason → Core → Prop} (hQ : ∀ err, Q (some t, err) c) :
      wp (acquireFrom l none err) Q E c := by
    induction l generalizing err with
    | nil => cases hf
    | cons x l ih =>
        obtain ⟨T, hT⟩ := Option.ne_none_iff_exists'.mp (hl x (by simp))
        have hl' : ∀ y ∈ l, c.transports y ≠ none := fun y hy => hl y (by simp [hy])
        simp only [acquireFrom, wp_bind]
        refine (wp_getTransport_of hT).mpr ?_
        by_cases hstate : T.connectionState = .noperm
        · rw [List.filter_cons_of_neg (by simp [Core.Accessible, hT, hstate])] at hf
          rw [if_pos hstate]
          exact ih hl' hf _
        · rw [List.filter_cons_of_pos (by simp [Core.Accessible, hT, hstate])] at hf
          obtain ⟨rfl, hrest⟩ := List.cons.inj hf
          rw [if_neg hstate]
          exact hnone l hl' hrest _ _ hQ
  rw [acquireOneTransport, wp_bind, wp_get, wp_bind]
  refine hone _ h.listed h.only _ fun err => ?_
  obtain ⟨T, hT, hoff, -⟩ := h.online
  dsimp only
  rw [wp_bind]
  refine (wp_getTransport_of hT).mpr ?_
  rw [if_neg hoff]
  exact hQ err

/-- The memory after the smart socket `ss` took a packet, or freed it: only its queue and the
packets changed. -/
structure Collected (c e : Core) (ss : SockId) (b : ASocket) (queue : List APacket) :
    Prop where
  self : e.sockets ss = some { b with queue := queue }
  frame : ∀ x, x ≠ ss → e.sockets x = c.sockets x
  list : e.localSocketList = c.localSocketList
  closing : e.localSocketClosingList = c.localSocketClosingList
  loop : e.loop = c.loop
  transports : e.transports = c.transports
  transportList : e.transportList = c.transportList
  cut : e.cut = c.cut
  live : ∀ x, c.livePkts x = true → e.livePkts x = true
  queue : ∀ x ∈ addrs queue, e.livePkts x = true ∧ x ≠ e.nextPkt ∧
    (x = c.nextPkt ∨ x ∈ addrs b.queue)

theorem Collected.available (h : Collected c e ss b queue) (hav : Available c t) :
    Available e t := by
  have haccess : e.Accessible = c.Accessible := by
    funext x
    rw [Core.Accessible, Core.Accessible, h.transports]
  refine ⟨?_, ?_, ?_⟩
  · rw [h.transportList, h.transports]
    exact hav.listed
  · rw [h.transportList, haccess]
    exact hav.only
  · rw [h.transports]
    obtain ⟨T, hT, hoff, hon, hread, hwrite⟩ := hav.online
    refine ⟨T, hT, hoff, hon, ?_, ?_⟩
    · rw [Core.canRead, h.cut]
      exact hread
    · rw [Core.canWrite, h.cut]
      exact hwrite

/-- The first part of `smart_socket_enqueue`. -/
theorem wp_smartCollect {Q : Option APacket → Core → Prop} (hw : WF ⟨c, []⟩)
    (hb : c.sockets ss = some b) (hk : b.kind = .smartSocket) (hq : Holds b.queue got)
    (hbs : bs.length ≤ MAX_PAYLOAD)
    (hlong : ∀ e, got.length + bs.length > MAX_PAYLOAD → Collected c e ss b b.queue → Q none e)
    (hfits : ∀ e p, ¬got.length + bs.length > MAX_PAYLOAD → Collected c e ss b [p] →
      p.data = got ++ bs → p.len = (got ++ bs).length → Q (some p) e) :
    wp (smartSocketCollect ss { addr := c.nextPkt, data := bs, len := bs.length }) Q E
      c.newPkt := by
  have hold : ∀ x ∈ addrs b.queue, c.livePkts x = true := hw.live_queue (H := []) hb
  have hlt {x : Nat} (hx : c.livePkts x = true) : x < c.nextPkt := hw.pkts.fresh hx
  have hnew {x : Nat} (hx : c.livePkts x = true) : c.newPkt.livePkts x = true := by
    simp [Core.newPkt, Nat.ne_of_lt (hlt hx), hx]
  have hfree {x : Nat} (hx : c.livePkts x = true) :
      (c.newPkt.freePkts [c.nextPkt]).livePkts x = true := by
    simp [Core.freePkts, Nat.ne_of_lt (hlt hx), hnew hx]
  have hput {queue : List APacket} (x : SockId) (hx : x ≠ ss) :
      (c.putSock ss (some { b with queue := queue })).sockets x = c.sockets x :=
    Function.update_of_ne hx ..
  rw [smartSocketCollect, wp_bind]
  refine (wp_getSock_of (by exact hb)).mpr ?_
  cases hqueue : b.queue with
  | nil =>
      -- the first packet is kept as it is
      rw [hqueue] at hq
      obtain rfl : got = [] := hq
      dsimp only
      rw [wp_bind]
      refine (wp_modSock_of (by exact hb)).mpr (hfits _ _ (by simpa using hbs) ?_ rfl rfl)
      refine ⟨Function.update_self .., hput, rfl, rfl, rfl, rfl, rfl, rfl, fun x => hnew,
        fun x hx => ?_⟩
      obtain rfl : x = c.nextPkt := by simpa using hx
      exact ⟨by simp [Core.putSock, Core.newPkt], Nat.ne_of_lt (Nat.lt_succ_self _), .inl rfl⟩
  | cons p₀ q =>
      have hone : b.queue.length ≤ 1 := by
        rcases (hw.graph.shape hb).queue with h | h | h
        · simp [hk, SockKind.isLocal] at h
        · simp [h]
        · exact h.2
      obtain rfl : q = [] := by simpa [hqueue] using hone
      rw [hqueue] at hq
      obtain ⟨hdata, hlen⟩ := hq
      have hp₀ : c.livePkts p₀.addr = true := hold p₀.addr (by simp [hqueue])
      have hqueue' {queue : List APacket} (e : Core) (he : e.livePkts =
          (c.newPkt.freePkts [c.nextPkt]).livePkts) (hn : e.nextPkt = c.nextPkt + 1)
          (ha : addrs queue = [p₀.addr]) : ∀ x ∈ addrs queue, e.livePkts x = true ∧
            x ≠ e.nextPkt ∧ (x = c.nextPkt ∨ x ∈ addrs b.queue) := by
        intro x hx
        obtain rfl : x = p₀.addr := by simpa [ha] using hx
        refine ⟨he ▸ hfree hp₀, ?_, .inr (by simp [hqueue])⟩
        rw [hn]
        exact Nat.ne_of_lt (Nat.lt_succ_of_lt (hlt hp₀))
      dsimp only
      rw [hlen]
      by_cases hbig : got.length + bs.length > MAX_PAYLOAD
      · rw [if_pos hbig, wp_bind, wp_putApacket (by simp [Core.newPkt])]
        exact hlong _ hbig ⟨hb, fun _ _ => rfl, rfl, rfl, rfl, rfl, rfl, rfl, fun x => hfree,
          hqueue' _ rfl rfl (by simp [hqueue])⟩
      · rw [if_neg hbig, wp_bind]
        refine (wp_modSock_of (by exact hb)).mpr ?_
        rw [wp_bind, wp_putApacket (by simp [Core.putSock, Core.newPkt])]
        refine hfits _ _ hbig ⟨Function.update_self .., hput, rfl, rfl, rfl, rfl, rfl, rfl,
          fun x => hfree, hqueue' _ rfl rfl (by simp)⟩ ?_ List.length_append.symm
        rw [hdata, List.take_length, List.take_length]

/-- The destination of a request is short. -/
theorem request_opens_length {destination : List UInt8} (h : request bs = .opens destination) :
    destination.length ≤ 1024 := by
  simp only [request] at h
  split_ifs at h with h4 hlen hmore
  obtain rfl := Request.opens.inj h
  calc (cstr ((bs.drop 4).take (unhex (bs.take 4)).toNat)).length
      ≤ ((bs.drop 4).take (unhex (bs.take 4)).toNat).length :=
        (List.takeWhile_prefix _).length_le
    _ ≤ (unhex (bs.take 4)).toNat := List.length_take_le _ _
    _ ≤ 1024 := by omega

/-- The second part of `smart_socket_enqueue`, with one transport available. -/
theorem wp_smartDecode {Q : Int → Core → Prop} {p : APacket} (hp : p.len = p.data.length)
    (hav : Available e t) (hb : e.sockets ss = some b) (htr : b.transport = none)
    (hmore : request p.data = .more → Q 0 e)
    (hrefused : request p.data = .refused → wp (smartSocketFail ss) Q E e)
    (hopens : ∀ destination, request p.data = .opens destination →
      wp (smartSocketConnect ss t destination) Q E
        (e.putSock ss (some { b with transport := some t }))) :
    wp (smartSocketDecode ss p) Q E e := by
  rw [smartSocketDecode]
  rw [request] at hmore hrefused hopens
  rw [hp]
  by_cases h4 : p.data.length < 4
  · rw [if_pos h4]
    exact hmore (if_pos h4)
  rw [if_neg h4] at hmore hrefused hopens ⊢
  dsimp only at hmore hrefused hopens ⊢
  by_cases hlen : (unhex (p.data.take 4)).toNat < 1 ∨ (unhex (p.data.take 4)).toNat > 1024
  · rw [if_pos hlen]
    exact hrefused (if_pos hlen)
  rw [if_neg hlen] at hmore hrefused hopens ⊢
  by_cases hlong : (unhex (p.data.take 4)).toNat + 4 > p.data.length
  · rw [if_pos hlong]
    exact hmore (if_pos hlong)
  rw [if_neg hlong] at hmore hrefused hopens ⊢
  rw [wp_bind, smartSocketTransport, wp_bind]
  refine (wp_getSock_of hb).mpr ?_
  rw [htr]
  refine wp_acquire_available hav fun err => ?_
  dsimp only
  rw [wp_bind]
  refine (wp_modSock_of hb).mpr ?_
  obtain ⟨T, hT, hoff, -⟩ := hav.online
  rw [wp_bind]
  refine (wp_getTransport_of (by exact hT)).mpr ?_
  rw [if_neg hoff]
  exact hopens _ rfl

/-- A client of a smart socket is not closing. -/
theorem Graph.client_open (hg : Graph c) (hs : c.sockets s = some a)
    (ha : a.kind = .localSocket) (hp : a.peer = some ss) : a.closing = false := by
  have hnot : ¬(a.kind = .localNotify ∨ a.closing = true) := fun h => by
    simp [(hg.shape hs).peer.mpr h] at hp
  simpa [ha] using hnot

/-- A smart socket that fails, whatever it has collected, closes its client. -/
theorem wp_smartFail {Q : Int → Core → Prop} (hw : WF ⟨c, []⟩) (hs : c.sockets s = some a)
    (ha : a.kind = .localSocket) (hx : a.exitOnClose = false) (hp : a.peer = some ss)
    (hb : c.sockets ss = some b) (hk : b.kind = .smartSocket) (he : Collected c e ss b queue)
    (hQ : ∀ c', s ∉ c'.localSocketList → c'.transports = c.transports → Q (-1) c') :
    wp (smartSocketFail ss) Q E e := by
  have hg : Graph c := hw.graph
  obtain ⟨b', hb', hpb, -⟩ := hg.peer hs hp
  obtain rfl : b = b' := Option.some.inj (hb.symm.trans hb')
  have hne : ss ≠ s := hg.peer_ne hs hp
  have hhead : ∀ x ∈ addrs queue.head?.toList, x ∈ addrs queue := by
    intro x hx
    cases queue with
    | nil => simp at hx
    | cons p l => simp_all
  have hapart : ∀ x ∈ addrs a.queue, x ∉ addrs queue.head?.toList := by
    intro x hx hx'
    rcases (he.queue x (hhead x hx')).2.2 with rfl | hxb
    · exact hw.ne_nextPkt (H := []) (hw.live_queue (H := []) hs _ hx) rfl
    · have hsq : Owner.queue s = .queue ss := hw.pkts.unique (x := x)
        (by simpa [Work.ledger, Work.held, hs] using hx)
        (by simpa [Work.ledger, Work.held, hb] using hxb)
      exact hne (by simpa using hsq.symm)
  rw [smartSocketFail, wp_bind, callClose, closeDepth, callCloseDepth, callCloseWith, wp_bind]
  refine (wp_getSock_of he.self).mpr ?_
  dsimp only
  rw [hk]
  simp only [smartSocketClose]
  rw [wp_bind]
  refine (wp_getSock_of he.self).mpr ?_
  dsimp only
  rw [wp_bind, wp_putApackets (by cases queue.head? <;> simp)
    fun x hx => (he.queue x (hhead x hx)).1, hpb]
  dsimp only
  rw [wp_bind]
  refine (wp_modSock_of (by exact (he.frame s hne.symm).trans hs)).mpr ?_
  -- the client, detached and closed by its own function
  obtain ⟨e', he'⟩ : ∃ e', e' = (e.freePkts (addrs queue.head?.toList)).putSock s
      (some { a with peer := none }) := ⟨_, rfl⟩
  rw [← he']
  have hself : e'.sockets s = some { a with peer := none } := by simp [he', Core.putSock]
  have hend : EndOk e' s { a with peer := none } := by
    refine hw.endOk (H := []) hs hself rfl (by rw [he']; exact he.list)
      (by rw [he']; exact he.closing) ?_ ?_
    · intro x d hd _
      by_cases hxs : x = s
      · simp [hxs, hself]
      · by_cases hxss : x = ss
        · simp [he', Core.putSock, Core.freePkts, hxss, he.self, hne]
        · simp [he', Core.putSock, Core.freePkts, hxs, he.frame x hxss, hd]
    · intro x hx
      rw [he']
      exact (if_neg (hapart x hx)).trans (he.live x (hw.live_queue (H := []) hs x hx))
  have hb' : e'.sockets ss = some { b with queue := queue } := by
    simpa [he', Core.putSock, Core.freePkts, hne] using he.self
  have hl' : e'.localSocketList = c.localSocketList := by rw [he']; exact he.list
  rw [wp_bind, callCloseDepth, callCloseWith, wp_bind]
  refine (wp_getSock_of hself).mpr ?_
  dsimp only
  rw [ha]
  simp only [localSocketCloseLocked]
  rw [wp_bind]
  refine (wp_getSock_of hself).mpr ?_
  dsimp only
  have hmem : s ∈ e'.localSocketList :=
    hl' ▸ (hg.mem_list s).mpr ⟨a, hs, by simp [ha, SockKind.isEnd], hg.client_open hs ha hp⟩
  refine wp_localEnd hend rfl (fun _ _ => hmem) (fun l _ => ?_) fun hx' => by simp [hx] at hx'
  rw [Core.close_alone, wp_bind]
  refine (wp_modSock_of (a := { b with queue := queue }) ?_).mpr ?_
  · simpa [hne] using hb'
  · refine (wp_freeSock_of (a := { b with queue := queue, peer := none })
      (by simp [Core.putSock])).mpr ?_
    refine hQ _ (fun hm => ?_) (by rw [he']; exact he.transports)
    exact (hg.nodup_list.mem_erase_iff.mp (hl' ▸ hm)).1 rfl

/-- **`smart_socket_enqueue`** of what was read from its client. -/
theorem wp_smartEnqueue {Q : Int → Core → Prop} (hw : WF ⟨c, []⟩) (hav : Available c t)
    (hs : c.sockets s = some a) (ha : a.kind = .localSocket) (hx : a.exitOnClose = false)
    (hp : a.peer = some ss) (hb : c.sockets ss = some b) (hk : b.kind = .smartSocket)
    (htr : b.transport = none) (hq : Holds b.queue got) (hbs : bs.length ≤ MAX_PAYLOAD)
    (hmore : ∀ c' queue, ¬got.length + bs.length > MAX_PAYLOAD → request (got ++ bs) = .more →
      c'.sockets s = some a → c'.sockets ss = some { b with queue := queue } →
        Holds queue (got ++ bs) → c'.loop = c.loop → c'.transports = c.transports → Q 0 c')
    (hrefused : ∀ c', (got.length + bs.length > MAX_PAYLOAD ∨ request (got ++ bs) = .refused) →
      s ∉ c'.localSocketList → c'.transports = c.transports → Q (-1) c')
    (hopens : ∀ c' destination T addr, ¬got.length + bs.length > MAX_PAYLOAD →
      request (got ++ bs) = .opens destination → c.transports t = some T →
        c'.sockets s =
          some { a with kind := .localNotify, peer := none, transport := some t } →
        c'.loop = c.loop → c'.transports t = some { T with
          mainToIo := T.mainToIo ++ [openPacket a.id destination addr] } → Q 1 c') :
    wp (smartSocketEnqueue ss { addr := c.nextPkt, data := bs, len := bs.length }) Q E
      c.newPkt := by
  obtain ⟨b', hb', hpb, -⟩ := hw.graph.peer hs hp
  obtain rfl : b = b' := Option.some.inj (hb.symm.trans hb')
  have hne : ss ≠ s := hw.graph.peer_ne hs hp
  rw [smartSocketEnqueue, wp_bind]
  refine wp_smartCollect hw hb hk hq hbs (fun e hlong he => ?_) fun e p hfits he hd hl => ?_
  · -- it does not fit behind what was collected before
    exact wp_smartFail hw hs ha hx hp hb hk he fun c' hc' ht => hrefused c' (.inl hlong) hc' ht
  have hse : e.sockets s = some a := (he.frame s hne.symm).trans hs
  dsimp only
  rw [← hd] at hmore hrefused hopens
  refine wp_smartDecode (by rw [hl, hd]) (he.available hav) he.self htr (fun hr => ?_)
    (fun hr => ?_) fun destination hr => ?_
  · exact hmore e [p] hfits hr hse he.self ⟨rfl, by rw [hl, hd]⟩ he.loop he.transports
  · exact wp_smartFail hw hs ha hx hp hb hk he fun c' hc' ht => hrefused c' (.inr hr) hc' ht
  · have hshort := request_opens_length hr
    obtain ⟨T, hT, hoff, hon, -, hopen⟩ := hav.online
    have hs' : (e.putSock ss (some { b with queue := [p], transport := some t })).sockets s =
        some a := (Function.update_of_ne hne.symm ..).trans hse
    refine wp_smartConnect hs' (Function.update_self ..) hk hpb hne (fun x hx => ?_)
      (fun hlong => ?_) (fun hn => ?_) (fun T' hT' ho => ?_) fun T' hT' => ?_
    · obtain ⟨hlive, hnext, -⟩ := he.queue x (by simpa using hx)
      exact ⟨hlive, hnext⟩
    · simp only [MAX_PAYLOAD] at hlong
      omega
    · simp [Core.putSock, he.transports, hT] at hn
    · obtain rfl : T = T' := by simpa [Core.putSock, he.transports, hT] using hT'
      have hshut : c.canWrite t T = false := Core.canWrite_eq_false ho he.cut rfl
      simp [hopen] at hshut
    · obtain rfl : T = T' := by simpa [Core.putSock, he.transports, hT] using hT'
      refine hopens _ destination T e.nextPkt hfits hr hT ?_ he.loop ?_
      · simp [Core.rig]
      · simp [Core.rig, Core.putSock]

/-! ### A packet from the client -/

/-- The read loop reads what fits. -/
theorem readLoop_length (rs : List ReadRes) (n : Nat) (got : List UInt8) :
    (readLoop rs n got).1.length ≤ got.length + n := by
  induction rs, n, got using readLoop.induct with
  | case1 | case2 | case3 | case4 | case5 | case6 => simp [readLoop]
  | case7 b bs rs avail got ih =>
      rw [readLoop]
      refine Nat.le_trans ih ?_
      rw [List.length_append, List.length_take]
      omega

/-- The `FDE_READ` branch, when something was read: what happens is up to the peer. -/
theorem wp_readEvent {Q : Unit → Core → Prop} {q : SockId} {r : Int}
    (hread : readLoop c.io.reads MAX_PAYLOAD [] = (bs, false, r)) (hbs : bs ≠ [])
    (hs : c.sockets s = some a) (hp : a.peer = some q)
    (h : wp (callEnqueue q { addr := c.nextPkt, data := bs, len := bs.length }) (fun r c' =>
      (0 < r → Q () (c'.onLoop (·.fdeventDel (.sock s) Events.onlyRead))) ∧
        (r = 0 → (c'.loop.fdes (.sock s)).forceEof = false ∧ Q () c') ∧ (r < 0 → Q () c'))
      E c.newPkt) : wp (localSocketReadEvent s) Q E c := by
  rw [localSocketReadEvent, wp_bind, wp_getApacket, wp_bind, wp_get]
  have hio : c.newPkt.io = c.io := rfl
  rw [hio, hread]
  dsimp only
  rw [wp_bind]
  refine (wp_getSock_of (by exact hs)).mpr ?_
  rw [hp, localSocketPass_some hbs]
  simp only [wp_bind]
  refine wp_mono h (fun r c' hr => ?_) fun _ => id
  obtain ⟨hpos, hzero, hneg⟩ := hr
  rcases Int.lt_trichotomy r 0 with hr | hr | hr
  · rw [if_neg (by omega), wp_pure, if_pos ⟨hbs, by simp, hr⟩]
    exact hneg hr
  · obtain ⟨hf, hQ⟩ := hzero hr
    rw [if_neg (by omega), wp_pure, if_neg (by omega), localSocketEof, wp_bind, wp_get,
      if_neg (by simp [hf])]
    exact hQ
  · rw [if_pos hr, wp_bind, wp_modLoop, wp_pure, if_neg (by omega), localSocketEof, wp_bind,
      wp_get, if_neg (by simp; omega)]
    exact hpos hr

/-- What an event does: the client goes on as `Client.next` says, and what is to be sent for it
is handed to the transport. -/
def Follows (c c' : Core) (s : SockId) (id : UInt32) (t : TId) (cl : Client)
    (ev : ClientEvent) : Prop :=
  ∃ cl' qs ps, cl.next ev = some (cl', qs) ∧ cl'.Shows c' s id t ∧ Pushed t c c' ps ∧
    List.Forall₂ (ClientPacket.Is id) ps qs

theorem Pushed.none (h : c'.transports = c.transports) : Pushed t c c' [] := by
  simp [Pushed, h]

/-- The record of a client after it was rigged, or handed on a packet, is not read. -/
theorem fdeventDel_read {l : Loop FdeId} (h : l.WF) :
    ((l.fdeventDel (.sock s) Events.onlyRead).fdes (.sock s)).interest.read = false ∧
      ((l.fdeventDel (.sock s) Events.onlyRead).fdes (.sock s)).forceEof =
        (l.fdes (.sock s)).forceEof := by
  refine ⟨?_, (Loop.fdeventSet_sub h _).2.1⟩
  rw [Loop.fdeventDel_interest]
  simp [Events.diff, Events.onlyRead]

theorem fdeventAdd_read {l : Loop FdeId} (h : l.WF) :
    ((l.fdeventAdd (.sock s) Events.onlyRead).fdes (.sock s)).interest.read = true ∧
      ((l.fdeventAdd (.sock s) Events.onlyRead).fdes (.sock s)).forceEof =
        (l.fdes (.sock s)).forceEof := by
  refine ⟨?_, (Loop.fdeventSet_sub h _).2.1⟩
  rw [Loop.fdeventAdd_interest]
  simp [Events.union, Events.onlyRead]

/-- A packet for the smart socket. -/
theorem Client.Shows.read_collecting {r : Int} (hw : WF ⟨c, []⟩) (hav : Available c t)
    (h : (Client.collecting got).Shows c s id t)
    (hread : readLoop c.io.reads MAX_PAYLOAD [] = (bs, false, r)) (hbs : bs ≠ []) :
    wp (localSocketReadEvent s)
      (fun _ c' => Follows c c' s id t (.collecting got) (.reads bs)) E c := by
  obtain ⟨a, ss, b, hc, hp, hb, hk, htr, hq⟩ := h
  have hs := hc.sock
  have ha : a.kind = .localSocket := hw.graph.localSocket_of_peer hs hc.kind hp
  have hopen : a.closing = false := hw.graph.client_open hs ha hp
  have hlen : bs.length ≤ MAX_PAYLOAD := by
    have hle := readLoop_length c.io.reads MAX_PAYLOAD []
    rw [hread] at hle
    simpa using hle
  refine wp_readEvent hread hbs hs hp ?_
  rw [callEnqueue, wp_bind]
  refine (wp_getSock_of (by exact hb)).mpr ?_
  rw [hk]
  refine wp_smartEnqueue hw hav hs ha hc.stays hp hb hk htr hq hlen ?_ ?_ ?_
  · intro c' queue hfits hr hs' hb' hq' hl ht
    refine ⟨fun h => absurd h (by decide), fun _ => ⟨hl ▸ hc.unforced, ?_⟩,
      fun h => absurd h (by decide)⟩
    refine ⟨.collecting (got ++ bs), [], [], ?_, ?_, .none ht, .nil⟩
    · rw [Client.next, if_neg hfits, hr]
    · exact ⟨a, ss, _, ⟨hs', hc.kind, hc.ident, hc.stays, hl ▸ hc.watched, hl ▸ hc.unforced⟩,
        hp, hb', hk, htr, hq'⟩
  · intro c' hr hs' ht
    refine ⟨fun h => absurd h (by decide), fun h => absurd h (by decide), fun _ => ?_⟩
    refine ⟨.refused, [], [], ?_, hs', .none ht, .nil⟩
    rw [Client.next]
    rcases hr with hr | hr
    · rw [if_pos hr]
    · rw [hr]
      split <;> rfl
  · intro c' destination T addr hfits hr hT hs' hl hT'
    refine ⟨fun _ => ?_, fun h => absurd h (by decide), fun h => absurd h (by decide)⟩
    refine ⟨.asked, [.opens destination], [openPacket a.id destination addr], ?_, ?_, ?_, ?_⟩
    · rw [Client.next, if_neg hfits, hr]
    · obtain ⟨hread', hforce⟩ := fdeventDel_read (s := s) (l := c'.loop) (hl ▸ hw.watch.wf)
      refine ⟨_, ⟨hs', rfl, hc.ident, hc.stays, hread', ?_⟩, rfl, hopen⟩
      exact hforce.trans (hl ▸ hc.unforced)
    · simp [Pushed, Core.onLoop, hT, hT']
    · refine .cons ?_ .nil
      rw [ClientPacket.Is, hc.ident]
      rfl

/-- A packet for the remote. -/
theorem Client.Shows.read_ready {remote : UInt32} {r : Int} (hw : WF ⟨c, []⟩)
    (hav : Available c t) (h : (Client.ready remote).Shows c s id t)
    (hread : readLoop c.io.reads MAX_PAYLOAD [] = (bs, false, r)) (hbs : bs ≠ []) :
    wp (localSocketReadEvent s) (fun _ c' => Follows c c' s id t (.ready remote) (.reads bs)) E
      c := by
  obtain ⟨a, q, b, hc, hp, hb, hk, hid, ht⟩ := h
  obtain ⟨b', hb', hpb, -⟩ := hw.graph.peer hc.sock hp
  obtain rfl : b = b' := Option.some.inj (hb.symm.trans hb')
  obtain ⟨T, hT, -, -, -, hopen⟩ := hav.online
  refine wp_readEvent hread hbs hc.sock hp ?_
  refine wp_enqueue_remote (b := b) (T := T) ⟨hb, hk, hpb, hc.sock, ht, hT⟩ ?_ fun ho => ?_
  · refine ⟨fun _ => ?_, fun h => absurd h (by decide), fun h => absurd h (by decide)⟩
    obtain ⟨hread', hforce⟩ := fdeventDel_read (s := s) hw.watch.wf
    refine ⟨.blocked remote, [.write remote bs],
      [wrtePacket { addr := c.nextPkt, data := bs, len := bs.length } a.id b.id], rfl,
        ?_, ?_, ?_⟩
    · exact ⟨a, q, b, ⟨hc.sock, hc.kind, hc.ident, hc.stays, hread', hforce.trans hc.unforced⟩,
        hp, hb, hk, hid, ht⟩
    · simp [Pushed, Core.onLoop, Core.note, Core.push, Core.putTransport, hT]
    · refine .cons ?_ .nil
      rw [ClientPacket.Is, hc.ident, hid]
      rfl
  · have hshut : c.canWrite t T = false := Core.canWrite_eq_false ho rfl rfl
    simp [hopen] at hshut

/-- An `OKAY` while the request is collected, or while the stream is open: the client is
read. -/
theorem IsClient.okay {reading : Bool} {p : APacket} {Q : Unit → Core → Prop} (hg : Graph c)
    (hl : c.loop.WF) (hc : IsClient c s id a reading) (hp : a.peer ≠ none)
    (hf : c.find p.msg.arg1 = some s)
    (hQ : ∀ c', IsClient c' s id a true → c'.sockets = c.sockets →
      c'.transports = c.transports →
      c'.livePkts = c.livePkts → Q () c') : wp (handleOkay p t) Q E c := by
  obtain ⟨q, hq⟩ := Option.ne_none_iff_exists'.mp hp
  have ha := hg.localSocket_of_peer hc.sock hc.kind hq
  obtain ⟨hread, hforce⟩ := fdeventAdd_read (s := s) hl
  refine wp_handleOkay_ready hg hf hc.sock ha hp (hQ _ ?_ rfl rfl rfl)
  exact ⟨hc.sock, hc.kind, hc.ident, hc.stays, hread, hforce.trans hc.unforced⟩

/-- An `OKAY` for an open stream. -/
theorem Streams.okay {remote : UInt32} {reading : Bool} {p : APacket} {Q : Unit → Core → Prop}
    (hg : Graph c) (hl : c.loop.WF) (h : Streams c s id t remote reading)
    (hf : c.find p.msg.arg1 = some s)
    (hQ : ∀ c', Streams c' s id t remote true → c'.transports = c.transports →
      c'.livePkts = c.livePkts → Q () c') : wp (handleOkay p t) Q E c := by
  obtain ⟨a, q, b, hc, hp, hb, hk, hid, ht⟩ := h
  refine hc.okay hg hl (by simp [hp]) hf fun c' hc' hsocks ht' hl' => hQ c' ?_ ht' hl'
  exact ⟨a, q, b, hc', hp, (congrFun hsocks q).trans hb, hk, hid, ht⟩

/-- A callback of a transport that reads an `OKAY`. -/
theorem wp_okayEvent {Q : Unit → Core → Prop} {T : ATransport} {p : APacket}
    {rest : List APacket} (hT : c.transports t = some T) (hopen : c.canRead t T = true)
    (hon : T.online = true) (hio : T.ioToMain = p :: rest) (hcmd : p.msg.command = A_OKAY)
    (h : wp (handleOkay p t) (fun _ c' => c'.livePkts p.addr = true ∧
      Q () (c'.freePkts [p.addr])) E
      (c.putTransport t (some { T with ioToMain := rest }))) :
    wp (transportSocketEvents t Events.onlyRead) Q E c := by
  have hT' : (c.putTransport t (some { T with ioToMain := rest })).transports t =
      some { T with ioToMain := rest } := Function.update_self ..
  have hne : A_OKAY ≠ A_SYNC ∧ A_OKAY ≠ A_WRTE ∧ A_OKAY ≠ A_CNXN ∧ A_OKAY ≠ A_AUTH ∧
      A_OKAY ≠ A_OPEN := by decide
  have hread : Events.onlyRead.read = true := rfl
  rw [transportSocketEvents, if_pos hread, wp_bind]
  refine (wp_getTransport_of hT).mpr ?_
  rw [hio]
  dsimp only
  rw [wp_bind, wp_get, if_pos hopen, wp_bind]
  refine (wp_modTransport_of hT).mpr ?_
  rw [handlePacket, wp_bind]
  refine (wp_getTransport_of hT').mpr ?_
  rw [hcmd, if_neg hne.1, if_neg hne.2.1, wp_bind, handleCommand, hcmd, if_neg hne.2.2.1,
    if_neg hne.2.2.2.1, if_neg hne.2.2.2.2, if_pos rfl, if_pos hon]
  refine wp_mono h (fun _ c' hc' => ?_) fun _ => id
  exact (wp_putApacket hc'.1).mpr hc'.2

/-- **An `OKAY` for the client.** -/
theorem Client.Shows.okay {T : ATransport} {p : APacket} {rest : List APacket}
    (hw : WF ⟨c, []⟩) (hav : Available c t) (h : cl.Shows c s id t)
    (hT : c.transports t = some T) (hio : T.ioToMain = p :: rest)
    (hcmd : p.msg.command = A_OKAY) (hf : c.find p.msg.arg1 = some s) :
    wp (transportSocketEvents t Events.onlyRead)
      (fun _ c' => Follows c c' s id t cl (.okay p.msg.arg0)) E c := by
  obtain ⟨T', hT', -, hon, hopen, -⟩ := hav.online
  obtain rfl : T = T' := Option.some.inj (hT.symm.trans hT')
  have hw₁ : WF ((Op.popMain t T p rest).apply ⟨c, []⟩) := hw.op ⟨hT, hio⟩
  have hlive : c.livePkts p.addr = true :=
    hw₁.pkts.live (o := .hand) (x := p.addr) (by simp [Work.ledger, Work.held, Op.handle])
  refine wp_okayEvent hT hopen hon hio hcmd ?_
  have hg : Graph (c.putTransport t (some { T with ioToMain := rest })) := hw₁.graph
  have hsame : (c.putTransport t (some { T with ioToMain := rest })).sockets = c.sockets := rfl
  have hpushed {c' : Core} (ht : c'.transports = Function.update c.transports t
      (some { T with ioToMain := rest })) : Pushed t c (c'.freePkts [p.addr]) [] := by
    simp [Pushed, Core.freePkts, ht, hT]
  cases cl with
  | collecting got =>
      obtain ⟨a, ss, b, hc, hp, hb, hk, htr, hq⟩ := h
      refine (hc.congr hsame rfl).okay hg hw.watch.wf (by simp [hp]) hf
        fun c' hc' hsocks ht hl => ?_
      refine ⟨(congrFun hl _).trans hlive, .collecting got, [], [], rfl, ?_, hpushed ht, .nil⟩
      exact ⟨a, ss, b, hc'.congr rfl rfl, hp, (congrFun hsocks ss).trans hb, hk, htr, hq⟩
  | asked =>
      obtain ⟨a, hc, hp, hcl⟩ := h
      refine wp_handleOkay_waiting hg hf hc.sock hp (fun T₁ hT₁ => ?_) fun hn => ?_
      · obtain rfl : { T with ioToMain := rest } = T₁ := by
          simpa [Core.putTransport] using hT₁
        obtain ⟨hread, hforce⟩ := fdeventAdd_read (s := s) hw.watch.wf
        have hfresh : c.nextSock ≠ s := (Nat.ne_of_lt (hw.graph.fresh hc.sock)).symm
        refine ⟨hlive, .ready p.msg.arg0, [], [], rfl, ?_, ?_, .nil⟩
        · refine ⟨{ a with kind := .localSocket, peer := some c.nextSock }, c.nextSock,
            { kind := .remoteSocket, id := p.msg.arg0, transport := some t, peer := some s },
            ⟨?_, rfl, hc.ident, hc.stays, hread, hforce.trans hc.unforced⟩, rfl, ?_, rfl,
              rfl, rfl⟩
          · simp [Core.freePkts, Core.attach, Core.putTransport]
          · simp [Core.freePkts, Core.attach, Core.putTransport, hfresh]
        · simp [Pushed, Core.freePkts, Core.attach, hT]
      · simp [Core.putTransport] at hn
  | ready remote | blocked remote =>
      refine (Streams.congr h hsame rfl).okay hg hw.watch.wf hf fun c' h' ht hl => ?_
      refine ⟨(congrFun hl _).trans hlive, .ready remote, [], [], rfl, ?_, hpushed ht, .nil⟩
      exact h'.congr rfl rfl
  | refused =>
      obtain ⟨a, hs, hk, hcl, -⟩ := hw.graph.find_some hf
      exact absurd ((hw.graph.mem_list s).mpr ⟨a, hs, hk, hcl⟩) h

/-! ### Sessions -/

variable {es : List ClientEvent} {ps : List APacket} {io : Io} {d : List UInt8}

/-- A client's event finds a client that is not closed. -/
theorem ClientEvent.Happens.sock (hw : WF ⟨c, []⟩) (h : ev.Happens c s t io)
    (hsh : cl.Shows c s id t) :
    ∃ a, IsClient c s id a (c.loop.fdes (.sock s)).interest.read := by
  have hmem : s ∈ c.localSocketList := by
    cases ev with
    | reads bs => exact h.1
    | okay r =>
        obtain ⟨T, p, rest, -, -, -, -, hf⟩ := h
        obtain ⟨a, hs, hk, hcl, -⟩ := hw.graph.find_some hf
        exact (hw.graph.mem_list s).mpr ⟨a, hs, hk, hcl⟩
  cases cl with
  | collecting got =>
      obtain ⟨a, ss, b, hc, -⟩ := hsh
      exact ⟨a, hc.watched ▸ hc⟩
  | asked =>
      obtain ⟨a, hc, -⟩ := hsh
      exact ⟨a, hc.watched ▸ hc⟩
  | ready r | blocked r =>
      obtain ⟨a, q, b, hc, -⟩ := hsh
      exact ⟨a, hc.watched ▸ hc⟩
  | refused => exact absurd hmem hsh

/-- **An event does what `Client.next` says**, and its callback returns. -/
theorem Client.Shows.event (hw : WF ⟨c, []⟩) (hav : Available c t) (h : cl.Shows c s id t)
    (hev : ev.Happens c s t io) : wp (ev.callback s t io)
      (fun _ c' => Follows c c' s id t cl ev) (fun _ => False) c := by
  have hw' : WF ⟨{ c with io := io }, []⟩ := hw.op (o := .io io) trivial
  have hav' : Available { c with io := io } t := ⟨hav.listed, hav.only, hav.online⟩
  have h' : cl.Shows { c with io := io } s id t := h.congr rfl rfl rfl
  cases ev with
  | reads bs =>
      obtain ⟨hmem, hread, hbs, r, hloop⟩ := hev
      rw [ClientEvent.callback, wp_bind, wp_modify]
      change wp (localSocketReadEvent s) _ _ _
      cases cl with
      | collecting got => exact h'.read_collecting hw' hav' hloop hbs
      | ready remote => exact h'.read_ready hw' hav' hloop hbs
      | asked =>
          obtain ⟨a, hc, -⟩ := h
          simp [hc.watched] at hread
      | blocked remote =>
          obtain ⟨a, q, b, hc, -⟩ := h
          simp [hc.watched] at hread
      | refused => exact absurd hmem h
  | okay remote =>
      obtain ⟨T, p, rest, hT, hio, hcmd, rfl, hf⟩ := hev
      rw [ClientEvent.callback, wp_bind, wp_modify]
      exact h'.okay hw' hav' hT hio hcmd hf

/-- The callback of an event keeps the data consistent. -/
theorem ClientEvent.Happens.wf (hw : WF ⟨c, []⟩) (hsh : cl.Shows c s id t)
    (h : ev.Happens c s t io) (hrun : ev.callback s t io c = .ok ((), c')) : WF ⟨c', []⟩ := by
  obtain ⟨a, hc⟩ := h.sock hw hsh
  have hw' : WF ⟨{ c with io := io }, []⟩ := hw.op (o := .io io) trivial
  cases ev with
  | reads bs =>
      have hrun' : localSocketReadEvent s { c with io := io } = .ok ((), c') := hrun
      obtain ⟨H, ho, hH⟩ := wp_ok (Does.readEvent (w := ⟨{ c with io := io }, []⟩)
        (by exact hc.sock) hc.kind hw') hrun'
      obtain rfl : H = [] := hH
      exact hw'.ops ho
  | okay r =>
      have hrun' : transportSocketEvents t Events.onlyRead { c with io := io } =
        .ok ((), c') :=
        hrun
      obtain ⟨H, ho, hH⟩ := wp_ok (Does.transportSocketEvents (w := ⟨{ c with io := io }, []⟩)
        (by rfl) hw') hrun'
      obtain rfl : H = [] := hH
      exact hw'.ops ho

/-- **A session of a client**, with the packets its events hand to the transport. -/
inductive ClientSession (s : SockId) (t : TId) (c₀ : Core) :
    List ClientEvent → List APacket → Core → Prop
  | start : ClientSession s t c₀ [] [] c₀
  | elsewhere {es : List ClientEvent} {ps : List APacket} {c c' : Core} :
      ClientSession s t c₀ es ps c → Elsewhere s c c' → ClientSession s t c₀ es ps c'
  | event {es : List ClientEvent} {ev : ClientEvent} {ps qs : List APacket} {c c' : Core}
      {io : Io} : ClientSession s t c₀ es ps c → Available c t → ev.Happens c s t io →
      ev.callback s t io c = .ok ((), c') → Pushed t c c' qs →
        ClientSession s t c₀ (es ++ [ev]) (ps ++ qs) c'

/-- The packets an event hands to the transport are known from the memory. -/
theorem Pushed.unique {qs : List APacket} (hav : Available c t) (h : Pushed t c c' ps)
    (h' : Pushed t c c' qs) : ps = qs := by
  obtain ⟨T, hT, -⟩ := hav.online
  have heq := h.symm.trans h'
  simp only [hT, Option.map_some, Option.some.injEq] at heq
  exact List.append_cancel_left heq

/-- **A session is a run of the client.** -/
theorem ClientSession.run (hw : WF ⟨e, []⟩) (h₀ : cl.Shows e s id t)
    (h : ClientSession s t e es ps c) :
    WF ⟨c, []⟩ ∧ ∃ cl' qs, cl.run es = some (cl', qs) ∧ cl'.Shows c s id t ∧
      List.Forall₂ (ClientPacket.Is id) ps qs := by
  induction h with
  | start => exact ⟨hw, cl, [], rfl, h₀, .nil⟩
  | elsewhere _ he ih =>
      obtain ⟨-, cl', qs, hrun, hsh, hps⟩ := ih
      exact ⟨he.wf, cl', qs, hrun, hsh.elsewhere he, hps⟩
  | event _ hav hev hcall hpush ih =>
      obtain ⟨hwc, cl₁, qs₁, hrun, hsh, hps₁⟩ := ih
      obtain ⟨cl₂, qs₂, ps₂, hnext, hsh₂, hpush₂, hps₂⟩ := wp_ok (hsh.event hwc hav hev) hcall
      obtain rfl := hpush.unique hav hpush₂
      exact ⟨hev.wf hwc hsh hcall, cl₂, qs₁ ++ qs₂, Client.run_append_one hrun hnext, hsh₂,
        List.rel_append hps₁ hps₂⟩

/-! ### Sessions of the daemon -/

variable {c₀ : Core} {y : System} {rest : List FdeId}

/-- A client that was accepted has sent nothing yet. -/
theorem Core.accept_shows (hw : WF ⟨c, []⟩) (fd : Nat) :
    (Client.collecting []).Shows (c.accept fd) c.nextSock c.localSocketNextId t := by
  have hpend : (c.loop.fdes (.sock c.nextSock)).pending = false := by
    by_contra hp
    have hact := hw.watch.wf.active (.sock c.nextSock) (by simpa using hp)
    obtain ⟨a, ha, -⟩ := (hw.watch.sock c.nextSock).1.mp hact
    exact Nat.lt_irrefl _ (hw.graph.fresh ha)
  obtain ⟨hread, hforce⟩ := fdeventAdd_read (s := c.nextSock) (hw.watch.wf.install fd hpend)
  refine ⟨{ kind := .localSocket, id := c.localSocketNextId, peer := some (c.nextSock + 1),
            fd := fd, writeFd := fd }, c.nextSock + 1,
    { kind := .smartSocket, peer := some c.nextSock },
    ⟨?_, rfl, rfl, rfl, hread, hforce.trans ?_⟩, rfl, ?_, rfl, rfl, rfl⟩
  · simp [Core.accept]
  · rw [Loop.fdeventInstall_fdes_self]
  · simp [Core.accept]

/-- Delivering events is nothing to a client. -/
theorem Elsewhere.taken {k : FdeId} (hw : WF ⟨c, []⟩) (hp : c.loop.pending = k :: rest) :
    Elsewhere s c (c.taken io k rest) where
  wf := hw.ops (ops_taken (P := fun _ _ => True) io hp trivial trivial)
  sock := fun a ha => ⟨a.queue, ha⟩
  peer := fun _ _ _ _ => rfl
  gone := id
  watched := by
    rw [Core.taken_fdes]
    split
    · next h => rw [h]
    · rfl
  unforced := by
    rw [Core.taken_fdes]
    split
    · next h => rw [h]
    · rfl

/-- An event whose callback is made continues a session. -/
theorem ClientSession.more (hw : WF ⟨c₀, []⟩) (h₀ : cl.Shows c₀ s id t)
    (h : ClientSession s t c₀ es ps c) (hav : Available c t)
    (hev : ev.Happens c s t io) : ∃ c' qs,
      ev.callback s t io c = .ok ((), c') ∧
      ClientSession s t c₀ (es ++ [ev]) (ps ++ qs) c' := by
  obtain ⟨hwc, cl', -, -, hsh, -⟩ := h.run hw h₀
  obtain ⟨_, c', hcall, -, -, qs, -, -, hpush, -⟩ := wp_returns (hsh.event hwc hav hev)
  exact ⟨c', qs, hcall, .event h hav hev hcall hpush⟩

/-- **A callback of the main loop that reads a packet from the client** returns, and is an
event of the session. -/
theorem ClientSession.step_reads (hw : WF ⟨c₀, []⟩) (h₀ : cl.Shows c₀ s id t)
    (h : ClientSession s t c₀ es ps y.core) (hp : y.core.loop.pending = .sock s :: rest)
    (hr : (y.core.loop.fdes (.sock s)).events = Events.onlyRead) (hav : Available y.core t)
    (hev : (ClientEvent.reads bs).Happens y.core s t io) :
    ∃ y' qs, step y (.dispatch io) = .ok y' ∧
      ClientSession s t c₀ (es ++ [.reads bs]) (ps ++ qs) y'.core := by
  obtain ⟨hwy, -⟩ := h.run hw h₀
  have he : Elsewhere s y.core (y.core.taken io (.sock s) rest) := .taken hwy hp
  have hav' : Available (y.core.taken io (.sock s) rest) t :=
    ⟨hav.listed, hav.only, hav.online⟩
  have hev' : (ClientEvent.reads bs).Happens (y.core.taken io (.sock s) rest) s t io :=
    ⟨hev.1, he.watched.trans hev.2.1, hev.2.2⟩
  obtain ⟨c', qs, hcall, h'⟩ := (h.elsewhere he).more hw h₀ hav' hev'
  refine ⟨{ y with core := c' }, qs, ?_, h'⟩
  have hrun : localSocketEventFunc s Events.onlyRead (y.core.taken io (.sock s) rest) =
      .ok ((), c') := hcall
  rw [step, Loop.fdeventPlistDequeue, hp]
  change System.run (localSocketEventFunc s (y.core.loop.fdes (.sock s)).events)
    { y with core := y.core.taken io (.sock s) rest } = _
  rw [System.run, hr, hrun]

/-- **A callback of the main loop that reads an `OKAY` for the client** returns, and is an
event of the session. -/
theorem ClientSession.step_okay {remote : UInt32} (hw : WF ⟨c₀, []⟩)
    (h₀ : cl.Shows c₀ s id t) (h : ClientSession s t c₀ es ps y.core)
    (hp : y.core.loop.pending = .transport t :: rest)
    (hr : (y.core.loop.fdes (.transport t)).events = Events.onlyRead)
    (hav : Available y.core t) (hev : (ClientEvent.okay remote).Happens y.core s t io) :
    ∃ y' qs, step y (.dispatch io) = .ok y' ∧
      ClientSession s t c₀ (es ++ [.okay remote]) (ps ++ qs) y'.core := by
  obtain ⟨hwy, -⟩ := h.run hw h₀
  have he : Elsewhere s y.core (y.core.taken io (.transport t) rest) := .taken hwy hp
  have hav' : Available (y.core.taken io (.transport t) rest) t :=
    ⟨hav.listed, hav.only, hav.online⟩
  have hev' : (ClientEvent.okay remote).Happens (y.core.taken io (.transport t) rest) s t io :=
    hev
  obtain ⟨c', qs, hcall, h'⟩ := (h.elsewhere he).more hw h₀ hav' hev'
  refine ⟨{ y with core := c' }, qs, ?_, h'⟩
  have hrun : transportSocketEvents t Events.onlyRead (y.core.taken io (.transport t) rest) =
      .ok ((), c') := hcall
  rw [step, Loop.fdeventPlistDequeue, hp]
  change System.run (transportSocketEvents t (y.core.loop.fdes (.transport t)).events)
    { y with core := y.core.taken io (.transport t) rest } = _
  rw [System.run, hr, hrun]

/-! ### A client that does not wait -/

instance (c : Core) (t : TId) : Decidable (Available c t) :=
  decidable_of_iff ((∀ x ∈ c.transportList, c.transports x ≠ none) ∧
    c.transportList.filter c.Accessible = [t] ∧ (c.transports t).any (fun T =>
      T.connectionState ≠ .offline ∧ T.online = true ∧ c.canRead t T = true ∧
        c.canWrite t T = true) = true)
    ⟨fun ⟨hl, ho, hT⟩ => ⟨hl, ho, by simpa using (Option.any_eq_true _ _).mp hT⟩,
      fun h => ⟨h.listed, h.only, (Option.any_eq_true _ _).mpr (by simpa using h.online)⟩⟩

instance (c : Core) (s : SockId) (t : TId) (io : Io) (ev : ClientEvent) :
    Decidable (ev.Happens c s t io) :=
  match ev with
  | .reads bs => decidable_of_iff (s ∈ c.localSocketList ∧
      (c.loop.fdes (.sock s)).interest.read = true ∧ bs ≠ [] ∧
        (readLoop io.reads MAX_PAYLOAD []).1 = bs ∧
          (readLoop io.reads MAX_PAYLOAD []).2.1 = false)
      ⟨fun ⟨hm, hi, hb, h, he⟩ => ⟨hm, hi, hb, _, Prod.ext h (Prod.ext he rfl)⟩,
        fun ⟨hm, hi, hb, r, h⟩ => ⟨hm, hi, hb, by rw [h], by rw [h]⟩⟩
  | .okay remote =>
      decidable_of_iff ((c.transports t).any (fun T => T.ioToMain.head?.any fun p =>
      p.msg.command = A_OKAY ∧ p.msg.arg0 = remote ∧ c.find p.msg.arg1 = some s) = true) <| by
    constructor
    · intro h
      obtain ⟨T, hT, h⟩ := (Option.any_eq_true _ _).mp h
      obtain ⟨p, hp, h⟩ := (Option.any_eq_true _ _).mp h
      obtain ⟨rest, hrest⟩ := List.head?_eq_some_iff.mp hp
      exact ⟨T, p, rest, hT, hrest, by simpa using h⟩
    · rintro ⟨T, p, rest, hT, hrest, h⟩
      simpa [hT, hrest] using h

/-- The packet that arrives is nothing to the client. -/
theorem Elsewhere.post {m : AMessage} {data : List UInt8} (hw : WF ⟨c, []⟩)
    (h : postToMain t m data c = .ok ((), c')) : Elsewhere s c c' := by
  have hkept : wp (postToMain t m data) (fun _ c' => c'.sockets = c.sockets ∧
      c'.localSocketList = c.localSocketList ∧ c'.loop = c.loop) (fun _ => True) c := by
    rw [postToMain, wp_bind, wp_getApacket, wp_modTransport]
    exact ⟨fun T _ => ⟨rfl, rfl, rfl⟩, fun _ => trivial⟩
  obtain ⟨hs, hm, hl⟩ := wp_ok hkept h
  have hdoes : Does ((Task.post t m data).May c) ⟨c, []⟩ (postToMain t m data)
      fun _ w' => w'.hand = [] := Does.postToMain
  obtain ⟨H, ho, hH⟩ := wp_ok (hdoes hw) h
  obtain rfl : H = [] := hH
  exact ⟨hw.ops ho, fun a ha => ⟨a.queue, (congrFun hs s).trans ha⟩,
    fun _ q _ _ => congrFun hs q, fun hn => hm ▸ hn, by rw [hl], by rw [hl]⟩

/-- What a client that does not wait for the `OKAY` sends: the request and more, at once. -/
def eagerBytes : List UInt8 :=
  ascii ['0', '0', '0', '6', 's', 'h', 'e', 'l', 'l', ':', 'l', 's']

/-- The answers of the operating system when the client `0` sends them. -/
def eagerIo : Io := { reads := [.data eagerBytes, .eagain] }

/-- Whether `0` is a client with the id `1` whose request the remote of the transport `0`
grants. -/
def Core.granted (c : Core) : Bool :=
  decide (c.sockets 0 =
      some { kind := .localSocket, id := 1, peer := some 1, fd := 7, writeFd := 7 } ∧
    c.sockets 1 = some { kind := .smartSocket, peer := some 0 } ∧
    (c.loop.fdes (.sock 0)).interest.read = true ∧ (c.loop.fdes (.sock 0)).forceEof = false ∧
    Available c 0 ∧ (ClientEvent.reads eagerBytes).Happens c 0 0 eagerIo) &&
  match (ClientEvent.reads eagerBytes).callback 0 0 eagerIo c with
  | .ok (_, c₁) =>
      match postToMain 0 (wireMsg A_OKAY 5 1 []) [] c₁ with
      | .ok (_, c₂) => decide (Available c₂ 0 ∧ (ClientEvent.okay 5).Happens c₂ 0 0 {})
      | .error _ => false
  | .error _ => false

/-- Such a client has a session. -/
theorem exists_session : ∃ c₀ c ps, WF ⟨c₀, []⟩ ∧ (Client.collecting []).Shows c₀ 0 1 0 ∧
    ClientSession 0 0 c₀ [.reads eagerBytes, .okay 5] ps c := by
  obtain ⟨y, hy, hP⟩ := exists_reachable
    (connect 0 .usb ++ event .ssListener Events.onlyRead { accepted := some 7 })
    (P := fun y => y.core.granted) (by decide +kernel)
  have hw := hy.wf
  generalize y.core = c₀ at hP hw
  rw [Core.granted, Bool.and_eq_true, decide_eq_true_eq] at hP
  obtain ⟨⟨hs, hss, hi, hf, hav, hev⟩, hP⟩ := hP
  split at hP
  · next c₁ hcall =>
    split at hP
    · next c₂ hpost =>
      rw [decide_eq_true_eq] at hP
      have h₀ : (Client.collecting []).Shows c₀ 0 1 0 :=
        ⟨_, 1, _, ⟨hs, rfl, rfl, rfl, hi, hf⟩, rfl, hss, rfl, rfl, rfl⟩
      obtain ⟨c', qs, hcall', h₁⟩ := ClientSession.start.more hw h₀ hav hev
      obtain rfl : c' = c₁ := by
        rw [hcall] at hcall'
        cases hcall'
        rfl
      have h₂ := h₁.elsewhere (.post (h₁.run hw h₀).1 hpost)
      obtain ⟨c₃, qs₃, -, h₃⟩ := h₂.more hw h₀ hP.1 hP.2
      exact ⟨c₀, c₃, _, hw, h₀, h₃⟩
    · cases hP
  · cases hP

/-! ### Requests, however they are cut -/

/-- **The smart socket and its client's bytes.** For a request, however it and what is behind
it are cut into packets, the same `OPEN` is sent; the rest of the packet that completes the
request is lost, and every later packet is sent on the stream, in order. Bytes that do not
start with the length of a request close the client, and nothing is sent for them. No callback
stops. -/
theorem request_any_split (hw : WF ⟨c₀, []⟩) (h₀ : (Client.collecting []).Shows c₀ s id t)
    (h : ClientSession s t c₀ es ps c) (hd : d.length = 4) :
    (∀ req R, Announces d req.length → (d ++ req ++ R).length ≤ MAX_PAYLOAD →
      (chunks es).flatten = d ++ req ++ R →
        ∃ before last after lost remote, chunks es = before ++ last :: after ∧
          before.flatten.length < req.length + 4 ∧ before.flatten ++ last = d ++ req ++ lost ∧
            R = lost ++ after.flatten ∧ List.Forall₂ (ClientPacket.Is id) ps
              (.opens (cstr req) :: after.map (.write remote))) ∧
      ((∀ n, ¬Announces d n) → ∀ rest, (chunks es).flatten = d ++ rest →
        ps = [] ∧ s ∉ c.localSocketList) ∧
        ∀ (ev : ClientEvent) (io : Io), Available c t → ev.Happens c s t io →
          ∃ c', ev.callback s t io c = .ok ((), c') := by
  obtain ⟨-, cl, qs, hrun, hsh, hps⟩ := h.run hw h₀
  refine ⟨fun req R hann hmax hall => ?_, fun hn rest hall => ?_, fun ev io hav hev => ?_⟩
  · obtain ⟨before, last, after, lost, r, hch, hlt, hlast, hR, rfl⟩ :=
      Client.run_request hann hmax (by simp) hall hrun
    exact ⟨before, last, after, lost, r, hch, hlt, hlast, hR, hps⟩
  · obtain ⟨rfl, rfl⟩ := Client.run_refused hd hn (by simp) hall hrun
    exact ⟨List.forall₂_nil_right_iff.mp hps, hsh⟩
  · obtain ⟨c', _, hcall, -⟩ := h.more hw h₀ hav hev
    exact ⟨c', hcall⟩

/-- A client asks for a shell, and does not wait for the `OKAY`. -/
theorem request_any_split_eager : ∃ c₀ c ps,
    ClientSession 0 0 c₀ [.reads eagerBytes, .okay 5] ps c ∧ ∃ before last after lost remote,
      [eagerBytes] = before ++ last :: after ∧
      before.flatten.length < 10 ∧ before.flatten ++ last =
        ascii ['0', '0', '0', '6'] ++ ascii ['s', 'h', 'e', 'l', 'l', ':'] ++ lost ∧
      ascii ['l', 's'] = lost ++ after.flatten ∧ List.Forall₂ (ClientPacket.Is 1) ps
        (.opens (ascii ['s', 'h', 'e', 'l', 'l', ':']) :: after.map (.write remote)) := by
  obtain ⟨c₀, c, ps, hw, h₀, h⟩ := exists_session
  exact ⟨c₀, c, ps, h, (request_any_split (d := ascii ['0', '0', '0', '6']) hw h₀ h rfl).1
    (ascii ['s', 'h', 'e', 'l', 'l', ':']) (ascii ['l', 's'])
    ⟨rfl, by decide, by decide, by decide⟩ (by decide) (by decide)⟩

/-- What a transport was handed for the stream of a client. -/
def forwarded (ps : List APacket) : List UInt8 :=
  (ps.filter (·.msg.command = A_WRTE)).flatMap (·.data)

/-- **What comes with the request is lost**: the remote is asked for the shell, grants it, and
never gets the rest of the packet. -/
theorem request_split_loses : ∃ c₀ c ps, WF ⟨c₀, []⟩ ∧ (Client.collecting []).Shows c₀ 0 1 0 ∧
    ClientSession 0 0 c₀ [.reads eagerBytes, .okay 5] ps c ∧
      eagerBytes = ascii ['0', '0', '0', '6'] ++ ascii ['s', 'h', 'e', 'l', 'l', ':'] ++
        ascii ['l', 's'] ∧ Announces (ascii ['0', '0', '0', '6']) 6 ∧
          forwarded ps ≠ ascii ['l', 's'] := by
  obtain ⟨c₀, c, ps, hw, h₀, h⟩ := exists_session
  obtain ⟨-, cl, qs, hrun, -, hps⟩ := h.run hw h₀
  have hrun' : Client.run (.collecting []) [.reads eagerBytes, .okay 5] =
      some (.ready 5, [.opens (ascii ['s', 'h', 'e', 'l', 'l', ':'])]) := by decide +kernel
  obtain ⟨-, rfl⟩ := Prod.mk.inj (Option.some.inj (hrun.symm.trans hrun'))
  refine ⟨c₀, c, ps, hw, h₀, h, by decide, ⟨rfl, by decide, by decide, by decide⟩, ?_⟩
  obtain ⟨p, l, hp, hnil, rfl⟩ := List.forall₂_cons_right_iff.mp hps
  obtain rfl := List.forall₂_nil_right_iff.mp hnil
  have hnone : forwarded [openPacket 1 (ascii ['s', 'h', 'e', 'l', 'l', ':']) p.addr] = [] :=
    rfl
  rw [hp, hnone]
  decide

end Adbd
