import Adbd.Sessions

/-!
# The Answers to the Remote's Requests

A remote asks for a service with `OPEN`. On a transport that is online the main loop answers
each request once, before it sends anything else for it: with `CLSE` if there is no such
service, and otherwise with `OKAY` and the id of the local socket it created, which is then one
end of a stream to the remote. The pipe to the input thread keeps the answers in the order of
the requests. On a transport that is not online a request gets no answer at all
(`Adbd.Sessions`).

## Main definitions

* `Core.Answers`: what `handle_packet` may do with an `OPEN`.
* `System.requests`: the request that a step handles.
* `Exchange.Answered`: it is answered once, by the socket created for it or with a refusal.
* `Served`: the daemon, with its requests and answers.

## Main results

* `wp_handleOpen`: the two answers.
* `step_answers`: a request is answered first, and then its stream is there.
* `requests_answered`: every request is answered once, and in order.
-/

namespace Adbd

open Program Custody

variable {c c' : Core} {w w' : Work} {o : Op} {s s' : System} {t : TId} {T T' : ATransport}
  {p : APacket} {io : Io} {a : Action} {id rid : UInt32}

/-! ### The `A_OPEN` case -/

/-- The record of the local end of a stream that is opened. -/
def Open.near (d : Open) (c : Core) : ASocket :=
  { kind := d.kind, id := c.localSocketNextId, exitOnClose := d.exitOnClose,
    peer := some (c.nextSock + 1), fd := d.fd, writeFd := d.writeFd,
    needUpdate := d.kind = .jdwpTracker }

/-- The transport of the stream, with the other end and the `OKAY`. -/
def Open.link (d : Open) (c : Core) : ATransport :=
  { d.T with
    disconnects := d.T.disconnects ++ [c.nextSock + 1]
    mainToIo := d.T.mainToIo ++ [ctlPacket c.nextPkt A_OKAY c.localSocketNextId d.remote] }

theorem Core.openStream_near (c : Core) (d : Open) :
    (c.openStream d).sockets c.nextSock = some (d.near c) :=
  if_pos rfl

theorem Core.openStream_far (c : Core) (d : Open) : (c.openStream d).sockets (c.nextSock + 1) =
    some { kind := .remoteSocket, id := d.remote, transport := some d.t,
           peer := some c.nextSock } :=
  (if_neg (Nat.succ_ne_self _)).trans (if_pos rfl)

theorem Core.openStream_link (c : Core) (d : Open) :
    (c.openStream d).transports d.t = some (d.link c) :=
  Function.update_self ..

/-- The two ends of the stream. -/
theorem Core.openStream_ends (c : Core) (d : Open) : RemoteOf (c.openStream d) (c.nextSock + 1)
    { kind := .remoteSocket, id := d.remote, transport := some d.t, peer := some c.nextSock }
    c.nextSock (d.near c) d.t (d.link c) :=
  ⟨c.openStream_far d, rfl, rfl, c.openStream_near d, rfl, c.openStream_link d⟩

/-- What a JDWP socket sends when it is ready for the first time. -/
def ASocket.list (a : ASocket) (pids : List Int) : List UInt8 :=
  if a.kind = .jdwpTracker then jdwpProcessListMsg pids MAX_PAYLOAD
  else jdwpProcessList pids MAX_PAYLOAD

/-- A JDWP socket that has sent it. -/
def ASocket.listed (a : ASocket) : ASocket :=
  if a.kind = .jdwpTracker then { a with needUpdate := false } else { a with pass := true }

/-- The memory after a packet with `bs` was sent for `x`. -/
def Core.tell (c : Core) (x : SockId) (t : TId) (T : ATransport) (id rid : UInt32)
    (bs : List UInt8) : Core :=
  (c.newPkt.push t T (uploadPacket c.nextPkt bs id rid)).note
    (.sent t (some x) (uploadPacket c.nextPkt bs id rid).msg)

/-- The peer of a socket that has one. -/
theorem wp_peerOf {Q : SockId → Core → Prop} {E : Fault → Prop} {x q : SockId} {a : ASocket}
    (hs : c.sockets x = some a) (hp : a.peer = some q) : wp (peerOf x) Q E c ↔ Q q c := by
  rw [peerOf, wp_bind, wp_getSock_of hs, hp, wp_pure]

/-- The first call of `jdwp_socket_ready`, or of `jdwp_tracker_ready`. -/
theorem wp_callReady_jdwp {Q : Unit → Core → Prop} {E : Fault → Prop} {x q : SockId}
    {a b : ASocket}
    (h : RemoteOf c q b x a t T) (hp : a.peer = some q) (hj : a.kind.isJdwp = true)
    (hpass : a.pass = false) (hneed : a.kind = .jdwpTracker → a.needUpdate = true)
    (hE : c.canWrite t T = false → E (.closedPipe t))
    (hQ : Q () ((c.tell x t T a.id b.id (a.list c.jdwpList)).putSock x (some a.listed))) :
    wp (callReady x) Q E c := by
  rw [callReady, wp_bind]
  refine (wp_getSock_of h.near).mpr ?_
  rw [ASocket.list, ASocket.listed] at hQ
  cases hkind : a.kind with
  | jdwpSocket =>
      have hno : a.kind ≠ .jdwpTracker := by rw [hkind]; decide
      rw [if_neg hno, if_neg hno] at hQ
      dsimp only
      rw [jdwpSocketReady, wp_bind]
      refine (wp_getSock_of h.near).mpr ?_
      refine (wp_bind ..).mpr ((wp_peerOf h.near hp).mpr ?_)
      simp only [wp_pure, hpass, Bool.false_eq_true, if_false, dataPacket, wp_bind, wp_get,
        wp_getApacket]
      refine wp_enqueue_remote ⟨h.sock, h.kind, h.peer, h.near, h.transport, h.live⟩ ?_
        fun ho => hE (Core.canWrite_eq_false ho rfl rfl)
      exact (wp_modSock_of (by exact h.near)).mpr hQ
  | jdwpTracker =>
      rw [if_pos hkind, if_pos hkind] at hQ
      dsimp only
      rw [jdwpTrackerReady, wp_bind]
      refine (wp_getSock_of h.near).mpr ?_
      rw [hneed hkind, if_pos rfl]
      simp only [dataPacket, wp_bind, wp_get, wp_getApacket, wp_pure]
      refine (wp_modSock_of (by exact h.near)).mpr ?_
      have hne : q ≠ x := by
        rintro rfl
        obtain rfl := Option.some.inj (h.sock.symm.trans h.near)
        rw [h.kind] at hj
        cases hj
      have hself : (c.newPkt.putSock x (some { a with needUpdate := false })).sockets x =
          some { a with needUpdate := false } := Function.update_self ..
      have hfar : (c.newPkt.putSock x (some { a with needUpdate := false })).sockets q =
        some b :=
        (Function.update_of_ne hne ..).trans h.sock
      refine (wp_bind ..).mpr ((wp_peerOf hself hp).mpr ?_)
      rw [wp_bind]
      exact wp_enqueue_remote ⟨hfar, h.kind, h.peer, hself, h.transport, h.live⟩ hQ
        fun ho => hE (Core.canWrite_eq_false ho rfl rfl)
  | localSocket | localNotify | remoteSocket | smartSocket =>
      rw [hkind] at hj
      cases hj

/-- **What becomes of the memory when an `OPEN` is handled** on a transport that is online: it
is refused, or a stream is opened, and a JDWP socket sends its list at once. -/
inductive Core.Answers (c : Core) (t : TId) (rid : UInt32) : Core → Prop
  | refused {T : ATransport} : c.transports t = some T →
      Answers c t rid (c.sendNew t T none fun x => ctlPacket x A_CLSE 0 rid)
  | opened (d : Open) : d.kind = .localSocket → d.t = t → d.remote = rid →
      c.transports t = some d.T → Answers c t rid (c.openStream d)
  | listed (d : Open) : d.kind.isJdwp = true → d.t = t → d.remote = rid →
      c.transports t = some d.T →
      Answers c t rid (((c.openStream d).tell c.nextSock t (d.link c) c.localSocketNextId rid
        ((d.near c).list c.jdwpList)).putSock c.nextSock (some (d.near c).listed))

/-- **The two answers to an `OPEN`.** -/
theorem wp_handleOpen (hw : WF w) :
    wp (handleOpen p t) (fun _ => w.core.Answers t p.msg.arg0) (fun _ => True) w.core := by
  rw [handleOpen, wp_bind]
  refine wp_createLocalServiceSocket hw ?_ (fun kind fd writeFd exit hk hkn => ?_)
    fun _ _ _ => trivial
  · dsimp only
    rw [sendClose, sendMsg, wp_bind, wp_getApacket, wp_sendPacket]
    refine ⟨fun T hT => ?_, fun _ => trivial⟩
    split
    · exact .refused hT
    · trivial
  dsimp only
  rw [wp_bind]
  refine wp_attachRemote (Function.update_self ..) ?_ (fun T hT x hx => ?_) (fun T hT => ?_)
    fun _ => trivial
  · simp [Core.created]
  · obtain ⟨d, hd, -⟩ := (hw.graph.disconnects (by exact hT)).2 x hx
    by_cases hxn : x = w.core.nextSock
    · simp [Core.created, hxn]
    · simp [Core.created, hxn, hd]
  have hT' : w.core.transports t = some T := hT
  let d : Open := ⟨kind, fd, writeFd, exit, p.msg.arg0, t, T⟩
  rw [wp_bind]
  refine (wp_getSock_of (by simp [Core.attached]; rfl)).mpr ?_
  rw [wp_bind]
  refine wp_sendOkay (fun T' hT' _ => ?_) (fun _ _ _ => trivial) fun _ => trivial
  obtain rfl : { T with disconnects := T.disconnects ++ [w.core.nextSock + 1] } = T' := by
    simpa [Core.attached, Core.created] using hT'
  rw [wp_bind, wp_note]
  change wp (callReady w.core.nextSock) _ _ (w.core.opening d)
  have heq := w.core.openStream_eq d
  by_cases hloc : kind = .localSocket
  · rw [callReady, wp_bind]
    refine (wp_getSock_of (w.core.opening_sockets d)).mpr ?_
    dsimp only [d]
    rw [hloc, localSocketReady, wp_modLoop]
    rw [if_pos hloc] at heq
    subst hloc
    rw [← heq]
    exact .opened d rfl rfl rfl hT
  · have hj : kind.isJdwp = true := by
      revert hk hkn hloc
      cases kind <;> simp [SockKind.isEnd, SockKind.isJdwp]
    rw [if_neg hloc] at heq
    rw [← heq]
    refine wp_callReady_jdwp (w.core.openStream_ends d) rfl hj rfl
      (fun hk => decide_eq_true hk)
      (fun _ => trivial) (.listed d hj rfl rfl hT)

/-! ### What is sent first -/

/-- The numbers of the local sockets created so far: the next id is one more, in 32 bits. -/
structure Core.Numbers (c : Core) (n : Nat) : Prop where
  next : c.localSocketNextId = UInt32.ofNat (n + 1)
  le : n ≤ c.nextSock

/-- Only creating a local socket uses up an id. -/
theorem Op.effect_ids (o : Op) (c : Core) :
    (o.effect c).localSocketNextId = c.localSocketNextId ∨
      (o.effect c).localSocketNextId = c.localSocketNextId + 1 ∧
        c.nextSock < (o.effect c).nextSock := by
  cases o with
  | openStream | accept => exact .inr ⟨rfl, Nat.lt_add_of_pos_right (by decide)⟩
  | drain s a d =>
      dsimp only [effect]
      split <;> exact .inl rfl
  | drainReady s a d far => cases far <;> exact .inl rfl
  | wrteDone =>
      simp [effect, Core.sendNew, Core.newPkt, Core.push, Core.putTransport, Core.freePkts,
        Core.note]
  | _ => exact .inl rfl

/-- The next number. -/
theorem Core.Numbers.succ {n : Nat} (h : c.Numbers n) (hnext : c'.localSocketNextId =
    c.localSocketNextId + 1) (hlt : c.nextSock < c'.nextSock) : c'.Numbers (n + 1) := by
  refine ⟨?_, Nat.succ_le_of_lt (Nat.lt_of_le_of_lt h.le hlt)⟩
  rw [hnext, h.next]
  exact (UInt32.ofNat_add _ _).symm

/-- Operations give out the ids in order. -/
theorem Core.Numbers.op {n : Nat} (h : w.core.Numbers n) :
    ∃ n', n ≤ n' ∧ (o.effect w.core).Numbers n' := by
  rcases o.effect_ids w.core with hsame | ⟨hnext, hlt⟩
  · exact ⟨n, Nat.le_refl n, hsame.trans h.next, Nat.le_trans h.le (o.nextSock_le w.core)⟩
  · exact ⟨n + 1, Nat.le_succ n, h.succ hnext hlt⟩

theorem Ops.numbers {P : Work → Op → Prop} {n : Nat} (h : Ops P w w') (hn : w.core.Numbers n) :
    ∃ n', n ≤ n' ∧ w'.core.Numbers n' := by
  refine h.invariant (I := fun v => ∃ n', n ≤ n' ∧ v.core.Numbers n') ⟨n, Nat.le_refl n, hn⟩ ?_
  rintro v o ⟨n₁, hle₁, hn₁⟩ - -
  obtain ⟨n₂, hle₂, hn₂⟩ := hn₁.op (o := o)
  exact ⟨n₂, Nat.le_trans hle₁ hle₂, hn₂⟩

/-! ### Steps -/

/-- A packet that refuses a request. -/
def AMessage.Refuses (m : AMessage) : Prop := m.command = A_CLSE ∧ m.arg0 = 0

/-- **What is sent first for a request**, and what the daemon has then. -/
structure Core.Replied (c c' : Core) (t : TId) (rid : UInt32) (q : APacket)
    (rest : List APacket) : Prop where
  addressed : q.msg.arg1 = rid
  reply : q.msg.Refuses ∧ rest = [] ∧ c'.sockets = c.sockets ∨
    q.msg.command = A_OKAY ∧ q.msg.arg0 = c.localSocketNextId ∧
      (∀ r ∈ rest, r.msg.command = A_WRTE) ∧
        c'.route c.nextSock = some (c.localSocketNextId, t, rid)
  ids : ∀ n, c.Numbers n → ∃ n', n ≤ n' ∧ c'.Numbers n' ∧ (q.msg.command = A_OKAY → n < n')

/-- The packet that opens a stream is answered with it. -/
theorem Core.Numbers.opened {n : Nat} {d : Open} (h : c.Numbers n) :
    (c.openStream d).Numbers (n + 1) :=
  h.succ rfl (Nat.lt_add_of_pos_right (by decide))

theorem Core.Answers.replied (h : c.Answers t rid c') (hT : c.transports t = some T) :
    ∃ T' q rest, c'.transports t = some T' ∧ T'.mainToIo = T.mainToIo ++ q :: rest ∧
      c.Replied c' t rid q rest := by
  cases h with
  | @refused T₁ hT₁ =>
      obtain rfl := Option.some.inj (hT.symm.trans hT₁)
      refine ⟨_, ctlPacket c.nextPkt A_CLSE 0 rid, [], Function.update_self .., rfl, rfl,
        .inl ⟨⟨rfl, rfl⟩, rfl, rfl⟩,
          fun n hn => ⟨n, Nat.le_refl n, ⟨hn.next, hn.le⟩, fun hc => ?_⟩⟩
      exact absurd (show A_CLSE = A_OKAY from hc) (by decide)
  | opened d hk ht hrid hd =>
      subst ht hrid
      obtain rfl := Option.some.inj (hT.symm.trans hd)
      have hroute :=
        Core.route_eq_some.mpr ⟨_, _, _, c.openStream_near d, rfl, c.openStream_far d,
        rfl, rfl, rfl, rfl⟩
      exact ⟨_, _, [], c.openStream_link d, rfl, rfl, .inr ⟨rfl, rfl, by simp, hroute⟩,
        fun n hn => ⟨n + 1, Nat.le_succ n, hn.opened, fun _ => Nat.lt_succ_self n⟩⟩
  | listed d hj ht hrid hd =>
      subst ht hrid
      obtain rfl := Option.some.inj (hT.symm.trans hd)
      refine ⟨_, _, [_], Function.update_self .., List.append_assoc .., rfl,
        .inr ⟨rfl, rfl, by simp, ?_⟩, fun n hn => ⟨n + 1, Nat.le_succ n,
          ⟨(hn.opened (d := d)).next, (hn.opened (d := d)).le⟩, fun _ => Nat.lt_succ_self n⟩⟩
      have hfar :=
        (Function.update_of_ne (Nat.succ_ne_self c.nextSock) (some (d.near c).listed)
        (c.openStream d).sockets).trans (c.openStream_far d)
      refine Core.route_eq_some.mpr ⟨_, _, _, Function.update_self .., ?_, hfar, rfl,
        rfl, ?_, rfl⟩
      · rw [ASocket.listed]
        split <;> rfl
      · rw [ASocket.listed]
        split <;> rfl

/-- `handle_packet` finds the sockets and ids where the main loop has them. -/
theorem System.Handles.ids_eq (h : s.Handles io t p c) :
    c.localSocketNextId = s.core.localSocketNextId ∧ c.nextSock = s.core.nextSock := by
  obtain ⟨c₁, T, rest, hr, -, -, -, rfl⟩ := h
  cases hr <;> exact ⟨rfl, rfl⟩

/-- The end of `handle_packet`. -/
theorem wp_putApacket_freed : wp (putApacket p) (fun _ c' => c' = c.freePkts [p.addr])
    (fun _ => True) c := by
  simp only [putApacket, wp_bind, wp_get]
  split
  · rw [wp_set, freePkts_singleton]
  · trivial

/-- **What a step that handles an `OPEN` does**: nothing on a transport that is not online. -/
theorem step_open (hr : Reachable s) (hs : step s (.dispatch io) = .ok s')
    (hk : s.task (.dispatch io) = .packet t p) (hc : p.msg.command = A_OPEN)
    (hT : s.core.transports t = some T) : ∃ c, s.Handles io t p c ∧
      if T.online then ∃ c', c.Answers t p.msg.arg0 c' ∧ s'.core = c'.freePkts [p.addr]
      else s'.core = c.freePkts [p.addr] := by
  obtain ⟨c, hh⟩ := System.exists_handles hk
  obtain ⟨rest, hcT, -⟩ := hh.transport hT
  have hw := hh.wf hr.wf
  have hrun := hh.step_eq.symm.trans hs
  have hwp : wp (handlePacket p t) (fun _ c'' => if T.online then
      ∃ c', c.Answers t p.msg.arg0 c' ∧ c'' = c'.freePkts [p.addr]
      else c'' = c.freePkts [p.addr]) (fun _ => True) c := by
    rw [handlePacket, wp_bind]
    refine (wp_getTransport_of hcT).mpr ?_
    rw [if_neg (by rw [hc]; decide), if_neg (by rw [hc]; decide), handleCommand,
      if_neg (by rw [hc]; decide), if_neg (by rw [hc]; decide), if_pos hc, wp_bind]
    by_cases hon : T.online = true
    · rw [if_pos (by exact hon)]
      simp only [if_pos hon]
      refine wp_mono (wp_handleOpen hw) ?_ fun _ _ => trivial
      rintro - c' hans
      exact wp_mono wp_putApacket_freed (fun _ c'' hc'' => ⟨c', hans, hc''⟩) fun _ _ => trivial
    · rw [if_neg (by exact hon)]
      simp only [if_neg hon]
      exact wp_putApacket_freed
  exact ⟨c, hh, System.run_does hwp hrun⟩

/-- **A request is answered first**, and if the answer is `OKAY` its stream is there. -/
theorem step_answers (hr : Reachable s) (hs : step s (.dispatch io) = .ok s')
    (hk : s.task (.dispatch io) = .packet t p) (hc : p.msg.command = A_OPEN)
    (hT : s.core.transports t = some T) (hon : T.online = true) :
    ∃ q rest, s.puts t (.dispatch io) s' = q :: rest ∧
      s.core.Replied s'.core t p.msg.arg0 q rest := by
  obtain ⟨c, hh, hans⟩ := step_open hr hs hk hc hT
  rw [if_pos hon] at hans
  obtain ⟨c', hans, hcore⟩ := hans
  obtain ⟨rest, hcT, -⟩ := hh.transport hT
  obtain ⟨T', q, rest', hT', hio, hrep⟩ := hans.replied hcT
  have hT'' : s'.core.transports t = some T' := hcore ▸ hT'
  refine ⟨q, rest', step_read hT hT'' hio, hrep.addressed, ?_, fun n hn => ?_⟩
  · rw [← hh.sockets_eq, ← hh.ids_eq.1, ← hh.ids_eq.2, hcore]
    exact hrep.reply
  · obtain ⟨n', hle, hn', hlt⟩ := hrep.ids n ⟨hh.ids_eq.1.trans hn.next, hh.ids_eq.2 ▸ hn.le⟩
    rw [hcore]
    exact ⟨n', hle, ⟨hn'.next, hn'.le⟩, hlt⟩

/-! ### Runs -/

/-- The request that a step handles: an `OPEN` on a transport that is online. -/
def System.requests (s : System) (t : TId) (a : Action) : List AMessage :=
  match s.task a with
  | .packet t' p =>
      if t' = t ∧ p.msg.command = A_OPEN ∧ (s.core.transports t).any (·.online)
        then [p.msg] else []
  | _ => []

/-- A request that was handled, what its step sent on the transport, and the memory of the main
loop before and after. -/
structure Exchange where
  request : AMessage
  sent : List AMessage
  before : Core
  after : Core

namespace Exchange

/-- **The request was answered, and once.** What its step sent first carries the remote's own
id. Either this is a `CLSE` from 0, nothing else was sent, and no socket was created. Or it is
an `OKAY` with the id of a new local socket that is one end of a stream to the remote, and what
was sent behind it are `WRTE`s. -/
def Answered (e : Exchange) (t : TId) : Prop :=
  ∃ reply rest, e.sent = reply :: rest ∧ reply.arg1 = e.request.arg0 ∧
    (reply.Refuses ∧ rest = [] ∧ e.after.sockets = e.before.sockets ∨
      reply.command = A_OKAY ∧ (∀ m ∈ rest, m.command = A_WRTE) ∧
        ∃ x, e.before.sockets x = none ∧
          e.after.route x = some (reply.arg0, t, e.request.arg0))

/-- The answers, which are what was sent first. -/
def replies (es : List Exchange) : List AMessage := es.flatMap fun e => e.sent.take 1

theorem replies_append (es es' : List Exchange) :
    replies (es ++ es') = replies es ++ replies es' :=
  List.flatMap_append

/-- The answers are addressed as the requests are. -/
theorem replies_arg1 {es : List Exchange} (h : ∀ e ∈ es, e.Answered t) :
    (replies es).map (·.arg1) = es.map (·.request.arg0) := by
  induction es with
  | nil => rfl
  | cons e es ih =>
      obtain ⟨reply, rest, hsent, harg, -⟩ := h e (List.mem_cons_self ..)
      have hes := ih fun e' he' => h e' (List.mem_cons_of_mem _ he')
      rw [replies, List.flatMap_cons, hsent, List.take_succ_cons, List.take_zero,
        List.map_append, List.map_singleton, List.singleton_append, List.map_cons, harg]
      exact congrArg _ hes

end Exchange

/-- The exchange of a step. -/
def System.exchanges (s : System) (t : TId) (a : Action) (s' : System) : List Exchange :=
  (s.requests t a).map fun m => ⟨m, s.sends t a s', s.core, s'.core⟩

/-- The ids that were granted. -/
def granted (ms : List AMessage) : List UInt32 :=
  (ms.filter fun m => m.command = A_OKAY).map (·.arg0)

/-- A step handles no request, or answers it. -/
theorem step_exchanges (hr : Reachable s) (hs : step s a = .ok s') :
    s.exchanges t a s' = [] ∨ ∃ m q rest, s.sends t a s' = q.msg :: rest.map (·.msg) ∧
      s.exchanges t a s' = [⟨m, q.msg :: rest.map (·.msg), s.core, s'.core⟩] ∧
      s.core.Replied s'.core t m.arg0 q rest := by
  by_cases hreq : s.requests t a = []
  · exact .inl (by rw [System.exchanges, hreq, List.map_nil])
  right
  have hask : ∃ p, s.task a = .packet t p ∧ p.msg.command = A_OPEN ∧
      (s.core.transports t).any (·.online) = true ∧ s.requests t a = [p.msg] := by
    rw [System.requests] at hreq ⊢
    split at hreq
    · next t' p hk =>
      split at hreq
      · next hcond =>
        obtain ⟨rfl, hc, hon⟩ := hcond
        exact ⟨p, hk, hc, hon, if_pos ⟨rfl, hc, hon⟩⟩
      · exact absurd rfl hreq
    · exact absurd rfl hreq
  obtain ⟨p, hk, hc, hon, hone⟩ := hask
  obtain ⟨io, rfl⟩ := s.dispatch_of_task (a := a) (by rw [hk]; trivial)
  obtain ⟨T, hT, hon⟩ := (Option.any_eq_true _ _).mp hon
  obtain ⟨q, rest, hputs, hrep⟩ := step_answers hr hs hk hc hT hon
  have hsends : s.sends t (.dispatch io) s' = q.msg :: rest.map (·.msg) := by
    rw [System.sends, hputs, List.map_cons]
  exact ⟨p.msg, q, rest, hsends, by rw [System.exchanges, hone, hsends, List.map_singleton],
    hrep⟩

/-- What is sent first answers the request. -/
theorem Core.Replied.answered {m : AMessage} {q : APacket} {rest : List APacket}
    (h : c.Replied c' t m.arg0 q rest) (hfresh : c.sockets c.nextSock = none) :
    Exchange.Answered ⟨m, q.msg :: rest.map (·.msg), c, c'⟩ t := by
  refine ⟨q.msg, rest.map (·.msg), rfl, h.addressed, ?_⟩
  rcases h.reply with ⟨href, rfl, hsame⟩ | ⟨hok, hid, hrest, hroute⟩
  · exact .inl ⟨href, rfl, hsame⟩
  · refine .inr ⟨hok, fun m' hm' => ?_, c.nextSock, hfresh, by rw [hid]; exact hroute⟩
    obtain ⟨r, hr, rfl⟩ := List.mem_map.mp hm'
    exact hrest r hr

/-- The daemon, with the requests of a transport that were handled and their answers, and all
messages that were sent on it. -/
structure Served where
  system : System
  exchanges : List Exchange
  sent : List AMessage

namespace Served

variable {y y' : Served}

/-- The requests that were handled. -/
def requests (y : Served) : List AMessage := y.exchanges.map (·.request)

/-- Their answers. -/
def replies (y : Served) : List AMessage := Exchange.replies y.exchanges

/-- The daemon when `fdevent_loop` starts. -/
def init : Served := ⟨System.init, [], []⟩

/-- A step of the daemon, recorded. -/
def step (t : TId) (y : Served) (a : Action) : Except Stop Served :=
  match Adbd.step y.system a with
  | .ok s' =>
      .ok
        { system := s'
          exchanges := y.exchanges ++ y.system.exchanges t a s'
          sent := y.sent ++ y.system.sends t a s' }
  | .error e => .error e

theorem step_ok (h : step t y a = .ok y') : Adbd.step y.system a = .ok y'.system ∧
    y'.exchanges = y.exchanges ++ y.system.exchanges t a y'.system ∧
      y'.sent = y.sent ++ y.system.sends t a y'.system := by
  rw [step] at h
  split at h
  · next s' hs =>
    obtain rfl := Except.ok.inj h
    exact ⟨hs, rfl, rfl⟩
  · cases h

/-- The ids from 1 to `n`. -/
def firstIds (n : Nat) : List UInt32 := (List.range n).map fun i => UInt32.ofNat (i + 1)

theorem firstIds_sublist {m n : Nat} (h : m ≤ n) : (firstIds m).Sublist (firstIds n) :=
  (List.range_sublist.mpr h).map _

theorem firstIds_succ (n : Nat) : firstIds (n + 1) = firstIds n ++ [UInt32.ofNat (n + 1)] := by
  rw [firstIds, List.range_succ, List.map_append]
  rfl

/-- They are different until the counter wraps around. -/
theorem firstIds_nodup {n : Nat} (h : n < 2 ^ 32) : (firstIds n).Nodup := by
  refine List.Nodup.map_on (fun i hi j hj heq => ?_) List.nodup_range
  rw [List.mem_range] at hi hj
  have hnat := congrArg UInt32.toNat heq
  rw [UInt32.toNat_ofNat', UInt32.toNat_ofNat'] at hnat
  omega

/-- What holds of the requests and answers of a run; `n` ids have been given out. -/
structure Inv (t : TId) (y : Served) (n : Nat) : Prop where
  reachable : Reachable y.system
  answered : ∀ e ∈ y.exchanges, e.Answered t
  sent : y.replies.Sublist y.sent
  numbers : y.system.core.Numbers n
  ids : (granted y.replies).Sublist (firstIds n)

theorem Inv.init : Inv t init 0 where
  reachable := .refl
  answered := by simp [Served.init]
  sent := .slnil
  numbers := ⟨by decide, Nat.zero_le _⟩
  ids := .slnil

theorem Inv.step {n : Nat} (h : Inv t y n) (hs : step t y a = .ok y') : ∃ n', Inv t y' n' := by
  obtain ⟨hs, hex, hsent⟩ := step_ok hs
  have hr' : Reachable y'.system := Trans.Runs.tail h.reachable trivial hs
  have hfresh := h.reachable.wf.graph.sockets_fresh (Nat.le_refl _)
  rcases step_exchanges (t := t) h.reachable hs with
    hnone | ⟨m, q, rest, hsends, hone, hreplied⟩
  · obtain ⟨n', hle, hn'⟩ :=
      (step_ops h.reachable.wf h.reachable.lives.unregistered hs).numbers h.numbers
    rw [hnone, List.append_nil] at hex
    have hrep : y'.replies = y.replies := congrArg Exchange.replies hex
    refine ⟨n', hr', by rw [hex]; exact h.answered, ?_, hn', ?_⟩
    · rw [hrep, hsent]
      exact h.sent.trans (List.sublist_append_left ..)
    · rw [hrep]
      exact h.ids.trans (firstIds_sublist hle)
  · obtain ⟨n', hle, hn', hlt⟩ := hreplied.ids n h.numbers
    rw [hone] at hex
    rw [hsends] at hsent
    have hrep : y'.replies = y.replies ++ [q.msg] := by
      rw [replies, hex, Exchange.replies_append]
      rfl
    refine ⟨n', hr', fun e he => ?_, ?_, hn', ?_⟩
    · rw [hex] at he
      rcases List.mem_append.mp he with he | he
      · exact h.answered e he
      · obtain rfl := List.mem_singleton.mp he
        exact hreplied.answered hfresh
    · rw [hrep, hsent]
      exact h.sent.append (List.singleton_sublist.mpr (List.mem_cons_self ..))
    · have happ : granted (y.replies ++ [q.msg]) = granted y.replies ++ granted [q.msg] := by
        simp [granted]
      rw [hrep, happ]
      rcases hreplied.reply with ⟨⟨hc, -⟩, -⟩ | ⟨hok, hid, -⟩
      · have hnil : granted [q.msg] = [] := by simp [granted, hc, A_CLSE, A_OKAY]
        rw [hnil, List.append_nil]
        exact h.ids.trans (firstIds_sublist hle)
      · have hlast : granted [q.msg] = [UInt32.ofNat (n + 1)] := by
          simp [granted, hok, hid, h.numbers.next]
        rw [hlast]
        refine List.Sublist.trans ?_ (firstIds_sublist (hlt hok))
        rw [firstIds_succ]
        exact h.ids.append (List.Sublist.refl _)

end Served

/-- **Every request is answered once, and in order**, in every interleaving of the threads and
for whatever the remote sends. Each `OPEN` handled on an online transport is answered by its
step, with a `CLSE` from 0 or with an `OKAY` from the local socket created for it, and with
nothing else that could be an answer. The answers carry the remote's own ids in the order of
the requests, and are sent in that order. As long as fewer than 2³² sockets were ever created,
no two of the `OKAY`s name the same id. -/
theorem requests_answered {y : Served}
    (h : Trans.Runs (Served.step t) (fun _ _ => True) Served.init y) :
    (∀ e ∈ y.exchanges, e.Answered t) ∧ y.replies.map (·.arg1) = y.requests.map (·.arg0) ∧
      y.replies.Sublist y.sent ∧
      (y.system.core.nextSock < 2 ^ 32 → (granted y.replies).Nodup) := by
  obtain ⟨n, hinv⟩ : ∃ n, Served.Inv t y n := by
    refine h.invariant (I := fun y => ∃ n, Served.Inv t y n) ⟨0, .init⟩ ?_
    rintro y a y' ⟨n, hn⟩ - hs
    exact hn.step hs
  have hargs : y.replies.map (·.arg1) = y.requests.map (·.arg0) := by
    rw [Served.replies, Exchange.replies_arg1 hinv.answered, Served.requests, List.map_map]
    rfl
  refine ⟨hinv.answered, hargs, hinv.sent, fun hlt => ?_⟩
  exact (Served.firstIds_nodup (Nat.lt_of_le_of_lt hinv.numbers.le hlt)).sublist hinv.ids

/-- Two shells are opened, and a service that is not there. -/
theorem requests_answered_shells : ∃ y : Served, y.requests.map (·.arg0) = [5, 6, 7] ∧
    (∀ e ∈ y.exchanges, e.Answered 0) ∧ y.replies.map (·.arg1) = [5, 6, 7] ∧
      (granted y.replies).Nodup := by
  let as := connect 0 .usb ++ openShell 0 5 9 ++ openShell 0 6 10 ++ openService 0 7
    ['x', ':'] {}
  let P (y : Served) : Bool := y.requests.map (·.arg0) = [5, 6, 7] ∧
    y.system.core.nextSock < 2 ^ 32
  have hfollow : (Trans.follow (Served.step 0) (fun _ _ => true) Served.init as).any P =
    true := by
    decide +kernel
  obtain ⟨y, hy, hP⟩ := Trans.exists_runs as (fun _ _ _ => trivial) hfollow
  obtain ⟨hreq, hlt⟩ := of_decide_eq_true hP
  obtain ⟨hans, hall, -, hids⟩ := requests_answered hy
  exact ⟨y, hreq, hans, hall.trans hreq, hids hlt⟩

end Adbd
