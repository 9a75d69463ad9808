import Adbd.Reading

/-!
# Packet Handling as Operations

`handle_packet` and the functions it calls, as sequences of operations: going offline,
opening a stream, attaching a waiting socket, delivering data and acknowledgements. On
every path the packet is either freed or handed on.

## Main results

* `Does.runTransportDisconnects`: every callback runs, and the list ends empty.
* `Does.handleOpen`, `Does.handleOkay`, `Does.handleClse`, `Does.handleWrte`,
  `Does.handleCnxn`, `Does.handleSync`: the cases of `handle_packet`.
* `Does.handlePacket`: `handle_packet`.
-/

namespace Adbd

open Program Custody

variable {c c₀ : Core} {s q : SockId} {a b : ASocket} {t : TId} {T : ATransport}
  {E : Fault → Prop} {w : Work} {k : Task} {P : Work → Op → Prop}

/-! ### Transports -/

/-- The pipes of the transport are open, as they are while the main loop reads them. -/
def Core.PipesOpen (c : Core) (t : TId) : Prop :=
  ∀ T, c.transports t = some T → T.pipesOpen = true

/-- A pipe that can be read is open. -/
theorem Core.pipesOpen_of_canRead (h : c.canRead t T = true) : T.pipesOpen = true :=
  (Bool.and_eq_true_iff.mp h).1

/-- A change of a transport that leaves its pipes alone leaves them open. -/
theorem Core.PipesOpen.put (h : c.PipesOpen t) (hT : c.transports t = some T) {c' : Core}
    {T' : ATransport} (hT' : c'.transports t = some T') (hpipe : T'.pipesOpen = T.pipesOpen) :
    c'.PipesOpen t := by
  intro T₁ hT₁
  obtain rfl := Option.some.inj (hT'.symm.trans hT₁)
  rw [hpipe]
  exact h T hT

/-- A change of the connection state leaves the pipes open. -/
theorem Core.PipesOpen.conn {o : Bool} {st : ConnState} {quals : Qualifiers}
    (h : w.core.PipesOpen t) (hT : w.core.transports t = some T) :
    ((Op.conn t T o st quals).apply w).core.PipesOpen t :=
  h.put hT (Function.update_self ..) rfl

/-- Sending a packet the handler holds, on behalf of no stream. -/
theorem Does.send {p : APacket} (hp : p.addr ∈ w.hand) (hopen : w.core.PipesOpen t)
    (hP : ∀ T, w.core.transports t = some T → P w (.send t T p.finish)) :
    Does P w (sendPacket p (some t) none) fun _ w' =>
      ∃ T, w.core.transports t = some T ∧ w' = (Op.send t T p.finish).apply w := by
  intro hw
  rw [wp_sendPacket]
  refine ⟨fun T hT => ?_, fun _ => Does.excused trivial⟩
  split
  · exact ⟨w.hand.erase p.addr, Ops.one (.send t T p.finish) ⟨hT, hp⟩ (hP T hT), T, hT, rfl⟩
  · next ho =>
    exact Does.excused ⟨T, hT, eq_false_of_ne_true ho,
      fun hc => absurd (hopen T hT) (by simp [hc])⟩

/-- Sending a new packet, on behalf of no stream. -/
theorem Does.sendFresh {f : APacket → APacket} (hf : ∀ p, (f p).addr = p.addr)
    (hopen : w.core.PipesOpen t) (hnew : P w .newPkt)
    (hP : ∀ T, w.core.transports t = some T →
      P (Op.newPkt.apply w) (.send t T (f { addr := w.core.nextPkt }).finish)) :
    Does P w (getApacket >>= fun p => sendPacket (f p) (some t) none)
      fun _ w' => w'.hand = w.hand := by
  refine .op (r := { addr := w.core.nextPkt }) .newPkt (fun _ => trivial) hnew rfl ?_
  refine (Does.send (by simp [hf, Op.handle]) (by exact hopen) hP).mono ?_
  rintro _ w' - ⟨T, -, rfl⟩
  simp [Op.handle, hf]

/-- A change of the connection state of a transport. -/
theorem Does.conn {f : ATransport → ATransport}
    (hf : ∀ T, f T = { T with
      online := (f T).online, connectionState := (f T).connectionState, quals := (f T).quals })
    (hP : ∀ T o st q, w.core.transports t = some T → P w (.conn t T o st q)) :
    Does P w (modTransport t f) fun _ w' => ∃ T, w.core.transports t = some T ∧
      w' = (Op.conn t T (f T).online (f T).connectionState (f T).quals).apply w := by
  intro hw
  rw [wp_modTransport]
  refine ⟨fun T hT => ?_, fun _ => Does.excused trivial⟩
  rw [hf T]
  exact ⟨w.hand, Ops.one (.conn t T (f T).online (f T).connectionState (f T).quals) hT
    (hP T _ _ _ hT), T, hT, rfl⟩

/-! ### Disconnecting -/

/-- The streams with their remote end on `t`, the ones `run_transport_disconnects` closes. -/
def Close.Disconnects (d : Close) (t : TId) : Prop :=
  d.how = .disconnect ∧
    ∃ o b, d.far = some (o, b) ∧ b.kind = .remoteSocket ∧ b.transport = some t

/-- A handler that may take `t` offline may close these streams. -/
theorem Task.may_disconnect {d : Close} (hk : k = .remove t ∨ ∃ p, k = .packet t p ∧
      (p.msg.command = A_CNXN ∨ p.msg.command = A_SYNC ∧ p.msg.arg0 = 0))
    (hd : d.Disconnects t) : k.May c₀ w (.close d) := by
  obtain ⟨hhow, o, b, hfar, -, hbt⟩ := hd
  simp only [Task.May, Task.Closes, hhow]
  exact ⟨t, o, b, hfar, hbt, hk⟩

/-- One turn of the loop of `run_transport_disconnects` takes the first node off the list. -/
theorem Does.disconnectFirst {l : List SockId} (hT : w.core.transports t = some T)
    (hl : T.disconnects = q :: l) (hP : ∀ w d, d.Disconnects t → P w (.close d)) :
    Does P w (remoteSocketDisconnect callClose q) fun _ w' =>
      w'.hand = w.hand ∧ w'.core.transports t = some { T with disconnects := l } ∧
        w.core.SameTransports w'.core := by
  refine .wf fun hw => ?_
  obtain ⟨b, hb, hkb, hbt⟩ := (hw.graph.disconnects hT).2 q (by simp [hl])
  refine (Does.disconnect hb hkb fun s a l _ _ => hP w _ ⟨rfl, q, b, rfl, hkb, hbt⟩).mono ?_
  rintro _ w' - ⟨s, a, n, -, -, rfl⟩
  refine ⟨rfl, ?_, w.core.close_sameTransports _⟩
  have hrem : Close.remote ⟨s, a, some (q, b), .disconnect, n⟩ = some (q, t) := by
    simp [Close.remote, hkb, hbt]
  rw [Op.apply_core, Op.effect, Core.close_transports_some hrem hT]
  simp [Close.clse, hl]

/-- The loop of `run_transport_disconnects`, from the first node. -/
theorem Does.runDisconnectsFrom (n : Nat) (hP : ∀ w d, d.Disconnects t → P w (.close d))
    {l : List SockId} (hn : l.length ≤ n) {w : Work}
    (hT : w.core.transports t = some { T with disconnects := l }) :
    Does P w (runDisconnectsFrom t n l.head?) fun _ w' =>
      w'.hand = w.hand ∧ w'.core.transports t = some { T with disconnects := [] } ∧
        w.core.SameTransports w'.core := by
  induction n generalizing l w with
  | zero =>
      obtain rfl : l = [] := List.eq_nil_of_length_eq_zero (Nat.le_zero.mp hn)
      exact .pure ⟨rfl, hT, .refl _⟩
  | succ n ih =>
      cases l with
      | nil => exact .pure ⟨rfl, hT, .refl _⟩
      | cons x l =>
          refine .wf fun hw => ?_
          obtain ⟨b, hb, -⟩ := (hw.graph.disconnects hT).2 x (by simp)
          rw [List.head?_cons, Adbd.runDisconnectsFrom]
          refine .getSock hb (.getTransport fun T' hT' => ?_)
          obtain rfl := Option.some.inj (hT.symm.trans hT')
          -- the link to the next node was read before the callback frees this one
          have hnext : nextIn x (x :: l) = l.head? := by simp [nextIn]
          dsimp only
          rw [hnext]
          refine .bind (Does.disconnectFirst hT rfl hP) ?_
          rintro _ w' ⟨hh, hT', hsame⟩
          refine (ih (by simpa using hn) hT').mono ?_
          rintro _ w'' - ⟨hh', hT'', hsame'⟩
          exact ⟨hh'.trans hh, hT'', hsame.trans hsame'⟩

/-- **`run_transport_disconnects`** runs every callback and leaves an empty list. -/
theorem Does.runTransportDisconnects (hT : w.core.transports t = some T)
    (hP : ∀ w d, d.Disconnects t → P w (.close d)) :
    Does P w (runTransportDisconnects t) fun _ w' =>
      w'.hand = w.hand ∧ w'.core.transports t = some { T with disconnects := [] } ∧
        w.core.SameTransports w'.core := by
  rw [Adbd.runTransportDisconnects]
  refine .getTransport fun T' hT' => ?_
  obtain rfl := Option.some.inj (hT.symm.trans hT')
  exact Does.runDisconnectsFrom _ hP (Nat.le_refl _) hT

/-- A packet that takes its transport offline first. -/
def Offline (p : APacket) : Prop :=
  p.msg.command = A_CNXN ∨ p.msg.command = A_SYNC ∧ p.msg.arg0 = 0

/-- `handle_offline`. -/
theorem Does.handleOffline
    (hconn : ∀ T o st q, w.core.transports t = some T → P w (.conn t T o st q))
    (hP : ∀ w d, d.Disconnects t → P w (.close d)) :
    Does P w (handleOffline t) fun _ w' =>
      w'.hand = w.hand ∧ ∃ T, w.core.transports t = some T ∧
        w'.core.transports t = some { T with online := false, disconnects := [] } := by
  rw [Adbd.handleOffline]
  refine .bind (Does.conn (fun _ => rfl) hconn) ?_
  rintro _ w' ⟨T, hT, rfl⟩
  refine (Does.runTransportDisconnects (T := { T with online := false }) ?_ hP).mono ?_
  · simp [Op.effect, Core.putTransport]
  · rintro _ w' - ⟨hh, hT', -⟩
    exact ⟨hh, T, hT, hT'⟩

/-- `handle_offline`, for a packet that takes its transport offline. -/
theorem Does.packetOffline {p : APacket} (hp : Offline p) :
    Does ((Task.packet t p).May c₀) w (Adbd.handleOffline t) fun _ w' =>
      w'.hand = w.hand ∧ ∃ T, w.core.transports t = some T ∧
        w'.core.transports t = some { T with online := false, disconnects := [] } :=
  Does.handleOffline (fun _ _ _ _ _ => ⟨p, rfl, hp⟩) fun _ _ =>
    Task.may_disconnect (.inr ⟨p, rfl, hp⟩)

/-! ### SYNC, CNXN, AUTH -/

/-- A transport after a `SYNC` on it was handled. -/
def ATransport.synced (T : ATransport) (p : APacket) : ATransport :=
  if p.msg.arg0 = 0 then
    { T with
      online := false, connectionState := .offline, disconnects := []
      mainToIo := T.mainToIo ++ [p.finish] }
  else { T with mainToIo := T.mainToIo ++ [p.finish] }

/-- The `A_SYNC` case. -/
theorem Does.handleSync {p : APacket} (hm : p.addr ∈ w.hand) (hc : p.msg.command = A_SYNC)
    (hopen : w.core.PipesOpen t) :
    Does ((Task.packet t p).May c₀) w (handleSync p t) fun _ w' =>
      w'.hand = w.hand.erase p.addr ∧ ∃ T, w.core.transports t = some T ∧
        w'.core.transports t = some (T.synced p) := by
  rw [Adbd.handleSync]
  by_cases h0 : p.msg.arg0 = 0
  · rw [if_neg (by simpa using h0)]
    have hoff : Offline p := .inr ⟨hc, h0⟩
    refine .bind (Does.conn (fun _ => rfl) fun T o st q _ => ⟨p, rfl, hoff⟩) ?_
    rintro _ w' ⟨T, hT, rfl⟩
    refine .bind (Does.packetOffline hoff) ?_
    rintro _ w' ⟨hh, T', hT', hT''⟩
    obtain rfl : { T with connectionState := .offline } = T' := by
      simpa [Op.effect, Core.putTransport] using hT'
    have hm' : p.addr ∈ w'.hand := by rw [hh]; exact hm
    have hmay (T₁ : ATransport) (hT₁ : w'.core.transports t = some T₁) :
        (Task.packet t p).May c₀ w' (.send t T₁ p.finish) := by
      obtain rfl := Option.some.inj (hT''.symm.trans hT₁)
      exact ⟨p, rfl, fun _ => ⟨rfl, fun _ => ⟨rfl, rfl, rfl⟩⟩, fun h => absurd hc h⟩
    refine (Does.send hm' (hopen.put hT hT'' rfl) hmay).mono ?_
    rintro _ w'' - ⟨T₁, hT₁, rfl⟩
    obtain rfl := Option.some.inj (hT''.symm.trans hT₁)
    refine ⟨?_, T, hT, ?_⟩
    · rw [Op.apply_hand, Op.handle, hh]
      rfl
    · simp [Op.effect, Core.note, Core.push, Core.putTransport, ATransport.synced, h0]
  · rw [if_pos h0]
    refine (Does.send hm hopen fun T _ => ⟨p, rfl, fun _ => ⟨rfl, fun h => absurd h h0⟩,
      fun h => absurd hc h⟩).mono ?_
    rintro _ w' - ⟨T, hT, rfl⟩
    refine ⟨rfl, T, hT, ?_⟩
    simp [Op.effect, Core.note, Core.push, Core.putTransport, ATransport.synced, h0]

/-- A packet that answers one other than `SYNC`. -/
theorem Task.may_answer {p p' : APacket} (hc : p.msg.command ≠ A_SYNC)
    (hc' : p'.msg.command ≠ A_SYNC) : (Task.packet t p).May c₀ w (.send t T p') :=
  ⟨p, rfl, fun h => absurd h hc, fun _ => hc'⟩

/-- The `A_CNXN` case. -/
theorem Does.handleCnxn {p : APacket} (hc : p.msg.command = A_CNXN)
    (hopen : w.core.PipesOpen t) :
    Does ((Task.packet t p).May c₀) w (handleCnxn p t) fun _ w' => w'.hand = w.hand := by
  have hoff : Offline p := .inl hc
  have hne : p.msg.command ≠ A_SYNC := by rw [hc]; decide
  have hrest {w' : Work} (hh : w'.hand = w.hand) (hopen' : w'.core.PipesOpen t) :
      Does ((Task.packet t p).May c₀) w' (do
      modTransport t fun T => T.parseBanner p.data
      handleOnline t
      sendConnect t) fun _ w'' => w''.hand = w.hand := by
    refine .bind (Does.conn (fun _ => rfl) fun T o st q _ => ⟨p, rfl, hoff⟩) ?_
    rintro _ w'' ⟨T, hT, rfl⟩
    rw [handleOnline]
    refine .bind (Does.conn (fun _ => rfl) fun T o st q _ => ⟨p, rfl, hoff⟩) ?_
    rintro _ w'' ⟨T', hT', rfl⟩
    rw [sendConnect, ← hh]
    refine .get ?_
    exact Does.sendFresh (fun _ => rfl) ((hopen'.conn hT).conn hT') trivial fun T _ =>
      Task.may_answer hne (by simp [APacket.finish, A_CNXN, A_SYNC])
  rw [Adbd.handleCnxn]
  refine .getTransport fun T _ => ?_
  dsimp only
  split
  · -- the transport was connected, and goes offline first
    refine .bind (Does.conn (fun _ => rfl) fun T o st q _ => ⟨p, rfl, hoff⟩) ?_
    rintro _ w' ⟨T, hT, rfl⟩
    refine .bind (Does.packetOffline hoff) ?_
    rintro _ w' ⟨hh, T', hT', hT''⟩
    obtain rfl : { T with connectionState := .offline } = T' := by
      simpa [Op.effect, Core.putTransport] using hT'
    exact hrest hh (hopen.put hT hT'' rfl)
  · exact hrest rfl hopen

/-- The `A_AUTH` case. -/
theorem Does.handleAuth {p : APacket} (hc : p.msg.command = A_AUTH)
    (hopen : w.core.PipesOpen t) :
    Does ((Task.packet t p).May c₀) w (handleAuth p t) fun _ w' => w'.hand = w.hand := by
  have hne : p.msg.command ≠ A_SYNC := by rw [hc]; decide
  rw [Adbd.handleAuth]
  split
  · refine .op (r := { addr := w.core.nextPkt }) .newPkt (fun _ => trivial) trivial rfl ?_
    intro hw
    rw [wp_putApacket (by simp [Op.effect, Core.newPkt])]
    have hgd : Op.Guard (Op.newPkt.apply w) (.freePkt w.core.nextPkt) := by
      simp [Op.Guard, Op.handle]
    exact ⟨_, Ops.one _ hgd trivial, by simp [Op.handle]⟩
  split
  · split
    · exact fun _ => Does.excused trivial
    · rw [sendAuthRequest]
      refine .get ?_
      cases w.core.io.token with
      | none => exact .pure rfl
      | some token =>
          exact Does.sendFresh (fun _ => rfl) hopen trivial fun T _ =>
            Task.may_answer hne (by simp [APacket.finish, A_AUTH, A_SYNC])
  · exact .pure rfl

/-! ### Creating sockets -/

/-- The memory after a local end of the given kind was created. -/
def Core.created (c : Core) (kind : SockKind) (fd writeFd : Nat) (exitOnClose : Bool) : Core :=
  { c with
    sockets := Function.update c.sockets c.nextSock (some
      { kind := kind, id := c.localSocketNextId, exitOnClose := exitOnClose, fd := fd,
        writeFd := writeFd, needUpdate := kind = .jdwpTracker })
    nextSock := c.nextSock + 1
    localSocketNextId := c.localSocketNextId + 1
    localSocketList := c.localSocketList ++ [c.nextSock]
    jdwpTrackersList :=
      if kind = .jdwpTracker then c.jdwpTrackersList ++ [c.nextSock] else c.jdwpTrackersList
    loop :=
      if kind = .localSocket then c.loop.fdeventInstall (.sock c.nextSock) fd else c.loop }

/-- `install_local_socket`. -/
theorem wp_installLocalSocket {Q : Unit → Core → Prop} (hs : c.sockets s = some a)
    (hl : ∀ x ∈ c.localSocketList, c.sockets x ≠ none)
    (hQ : Q () { c.putSock s (some { a with id := c.localSocketNextId }) with
      localSocketNextId := c.localSocketNextId + 1
      localSocketList := c.localSocketList ++ [s] }) :
    wp (installLocalSocket s) Q E c := by
  rw [installLocalSocket, wp_bind, wp_get, wp_bind]
  refine (wp_modSock_of hs).mpr ?_
  rw [wp_bind, wp_modify, insertLocal, wp_bind, wp_get, wp_bind]
  refine wp_touch (fun x hx hn => ?_) hQ
  have hx' : x ∈ c.localSocketList := List.mem_of_getLast? (by simpa [Core.putSock] using hx)
  by_cases hxs : x = s
  · simp [hxs, Core.putSock] at hn
  · exact absurd (by simpa [Core.putSock, hxs] using hn) (hl x hx')

/-- The sockets of the list stay live when one is created. -/
theorem WF.list_live {w : Work} (hw : WF w) (d : ASocket) :
    ∀ x ∈ w.core.localSocketList,
    (w.core.putSock w.core.nextSock (some d)).sockets x ≠ none := by
  intro x hx
  obtain ⟨a, ha, -⟩ := (hw.graph.mem_list x).mp hx
  by_cases hxn : x = w.core.nextSock
  · simp [Core.putSock, hxn]
  · simp [Core.putSock, hxn, ha]

/-- `create_local_socket_pair`. -/
theorem wp_createLocalSocketPair {Q : SockId → Core → Prop} {fd writeFd : Nat} (hw : WF w)
    (hQ : Q w.core.nextSock (w.core.created .localSocket fd writeFd false)) :
    wp (createLocalSocketPair fd writeFd) Q E w.core := by
  rw [createLocalSocketPair, wp_bind, wp_allocSock, wp_bind]
  refine wp_installLocalSocket (a := { kind := .localSocket, fd := fd, writeFd := writeFd })
    (by simp [Core.putSock]) (by exact hw.list_live _) ?_
  rw [wp_bind, wp_modLoop, wp_pure]
  simpa [Core.created, Core.putSock, Core.onLoop] using hQ

/-- `create_jdwp_service_socket`. -/
theorem wp_createJdwpServiceSocket {Q : SockId → Core → Prop} (hw : WF w)
    (hQ : Q w.core.nextSock (w.core.created .jdwpSocket 0 0 false)) :
    wp createJdwpServiceSocket Q E w.core := by
  rw [createJdwpServiceSocket, wp_bind, wp_allocSock, wp_bind]
  refine wp_installLocalSocket (a := { kind := .jdwpSocket })
    (by simp [Core.putSock]) (by exact hw.list_live _) ?_
  simpa [Core.created, Core.putSock] using hQ

/-- `create_jdwp_tracker_service_socket`: linking the tracker accesses the last one of the
list, which may have been freed. -/
theorem wp_createJdwpTrackerServiceSocket {Q : SockId → Core → Prop} (hw : WF w)
    (hQ : Q w.core.nextSock (w.core.created .jdwpTracker 0 0 false))
    (hU : ∀ x ∈ w.core.jdwpTrackersList, w.core.sockets x = none → E (.useAfterFree x)) :
    wp createJdwpTrackerServiceSocket Q E w.core := by
  rw [createJdwpTrackerServiceSocket, wp_bind, wp_allocSock, wp_bind, wp_get, wp_bind]
  refine wp_touch (fun x hx hn => ?_) ?_
  · have hx' : x ∈ w.core.jdwpTrackersList :=
      List.mem_of_getLast? (by simpa [Core.putSock] using hx)
    refine hU x hx' ?_
    by_cases hxn : x = w.core.nextSock
    · simp [Core.putSock, hxn] at hn
    · simpa [Core.putSock, hxn] using hn
  · rw [wp_bind, wp_modify, wp_bind]
    refine wp_installLocalSocket (a := { kind := .jdwpTracker, needUpdate := true })
      (by simp [Core.putSock]) (by exact hw.list_live _) ?_
    simpa [Core.created, Core.putSock] using hQ

/-- `create_local_service_socket`: it fails without an effect, or creates a local end. -/
theorem wp_createLocalServiceSocket {Q : Option SockId → Core → Prop} {name : List UInt8}
    (hw : WF w) (hnone : Q none w.core)
    (hQ : ∀ kind fd writeFd exit, kind.isEnd = true → kind ≠ .localNotify →
      Q (some w.core.nextSock) (w.core.created kind fd writeFd exit))
    (hU : ∀ x ∈ w.core.jdwpTrackersList, w.core.sockets x = none → E (.useAfterFree x)) :
    wp (createLocalServiceSocket name) Q E w.core := by
  rw [createLocalServiceSocket]
  split
  · rw [wp_map]
    exact wp_createJdwpServiceSocket hw (hQ _ _ _ _ rfl (by decide))
  split
  · rw [wp_map]
    exact wp_createJdwpTrackerServiceSocket hw (hQ _ _ _ _ rfl (by decide)) hU
  rw [wp_bind, wp_get]
  dsimp only
  split
  · exact hnone
  · next rfd wfd _ =>
    rw [wp_bind]
    refine wp_createLocalSocketPair hw ?_
    split
    · rw [wp_bind]
      refine (wp_modSock_of (Function.update_self ..)).mpr ?_
      have heq : w.core.created .localSocket rfd wfd true =
          (w.core.created .localSocket rfd wfd false).putSock w.core.nextSock (some
            { kind := .localSocket, id := w.core.localSocketNextId, exitOnClose := true,
              fd := rfd, writeFd := wfd, needUpdate := false }) := by
        simp [Core.created, Core.putSock]
      exact heq ▸ hQ .localSocket rfd wfd true rfl (by decide)
    · exact hQ _ _ _ _ rfl (by decide)

/-- The memory after the local end `s` was given a new remote socket. -/
def Core.attached (c : Core) (s : SockId) (a : ASocket) (id : UInt32) (t : TId)
    (T : ATransport) : Core :=
  { c with
    sockets := fun x =>
      if x = s then some { a with peer := some c.nextSock }
      else if x = c.nextSock then
        some { kind := .remoteSocket, id := id, transport := some t, peer := some s }
      else c.sockets x
    nextSock := c.nextSock + 1
    transports := Function.update c.transports t
      (some { T with disconnects := T.disconnects ++ [c.nextSock] }) }

/-- Making `s` and a new remote socket the two ends of a stream. -/
theorem wp_attachRemote {Q : Unit → Core → Prop} {id : UInt32} (hs : c.sockets s = some a)
    (hne : s ≠ c.nextSock)
    (hd : ∀ T, c.transports t = some T → ∀ x ∈ T.disconnects, c.sockets x ≠ none)
    (hQ : ∀ T, c.transports t = some T → Q () (c.attached s a id t T))
    (hE : c.transports t = none → E (.staleTransport t)) : wp (attachRemote s id t) Q E c := by
  rw [attachRemote, wp_bind, createRemoteSocket, wp_bind, wp_allocSock, wp_bind,
    addTransportDisconnect, wp_bind, wp_getTransport]
  refine ⟨fun T hT => ?_, hE⟩
  have hT' : c.transports t = some T := hT
  rw [wp_bind]
  refine wp_touch (fun x hx hn => ?_) ?_
  · have hx' : x ∈ T.disconnects := List.mem_of_getLast? (by simpa using hx)
    by_cases hxn : x = c.nextSock
    · simp [Core.putSock, hxn] at hn
    · exact absurd (by simpa [Core.putSock, hxn] using hn) (hd T hT' x hx')
  · refine (wp_modTransport_of (by exact hT')).mpr ?_
    rw [wp_pure, wp_bind]
    refine (wp_modSock_of (a := a) ?_).mpr ?_
    · simpa [Core.putTransport, Core.putSock, hne] using hs
    refine (wp_modSock_of
      (a := { kind := .remoteSocket, id := id, transport := some t }) ?_).mpr ?_
    · simp [Core.putTransport, Core.putSock, hne.symm]
    refine (congrArg (Q ()) ?_).mpr (hQ T hT')
    apply Core.ext
    case sockets =>
      funext x
      by_cases hx : x = c.nextSock
      · simp [Core.attached, Core.putSock, hx, hne.symm]
      · simp [Core.attached, Core.putSock, Core.putTransport, hx, Function.update_apply]
    all_goals rfl

/-! ### OPEN -/

/-- The memory after both ends of a stream were created and the `OKAY` was sent. -/
def Core.opening (c : Core) (d : Open) : Core :=
  let s := c.nextSock
  let a : ASocket :=
    { kind := d.kind, id := c.localSocketNextId, exitOnClose := d.exitOnClose, fd := d.fd,
      writeFd := d.writeFd, needUpdate := d.kind = .jdwpTracker }
  ((((c.created d.kind d.fd d.writeFd d.exitOnClose).attached s a d.remote d.t d.T).sendNew d.t
    { d.T with disconnects := d.T.disconnects ++ [s + 1] } (some s)
    fun x => ctlPacket x A_OKAY c.localSocketNextId d.remote).note (.opened s))

/-- The local end that was opened. -/
theorem Core.opening_sockets (c : Core) (d : Open) : (c.opening d).sockets c.nextSock =
    some { kind := d.kind, id := c.localSocketNextId, exitOnClose := d.exitOnClose, fd := d.fd,
           writeFd := d.writeFd, needUpdate := d.kind = .jdwpTracker,
           peer := some (c.nextSock + 1) } := by
  simp [Core.opening, Core.note, Core.sendNew, Core.push, Core.putTransport, Core.newPkt,
    Core.attached, Core.created]

/-- Opening a stream, once its local end is ready. -/
theorem Core.openStream_eq (c : Core) (d : Open) : c.openStream d =
    if d.kind = .localSocket then
      (c.opening d).onLoop (·.fdeventAdd (.sock c.nextSock) Events.onlyRead)
    else c.opening d := by
  have hsock : (c.opening d).sockets = (c.openStream d).sockets := by
    funext x
    by_cases hx : x = c.nextSock
    · subst hx
      rw [Core.opening_sockets]
      simp [Core.openStream]
    · by_cases hx' : x = c.nextSock + 1
      · simp [Core.opening, Core.note, Core.sendNew, Core.push, Core.putTransport, Core.newPkt,
          Core.attached, Core.created, Core.openStream, hx']
      · simp [Core.opening, Core.note, Core.sendNew, Core.push, Core.putTransport, Core.newPkt,
          Core.attached, Core.created, Core.openStream, hx, hx']
  split
  · next h =>
    apply Core.ext
    case sockets => exact hsock.symm
    case transports =>
      simp [Core.openStream, Core.opening, Core.onLoop, Core.note, Core.sendNew, Core.push,
        Core.putTransport, Core.newPkt, Core.attached, Core.created]
    case loop =>
      simp [Core.openStream, Core.opening, Core.onLoop, Core.note, Core.sendNew, Core.push,
        Core.putTransport, Core.newPkt, Core.attached, Core.created, h]
    all_goals rfl
  · next h =>
    apply Core.ext
    case sockets => exact hsock.symm
    case transports =>
      simp [Core.openStream, Core.opening, Core.note, Core.sendNew, Core.push,
        Core.putTransport, Core.newPkt, Core.attached, Core.created]
    case loop =>
      simp [Core.openStream, Core.opening, Core.note, Core.sendNew, Core.push,
        Core.putTransport, Core.newPkt, Core.attached, Core.created, h]
    all_goals rfl

/-- The `A_OPEN` case. -/
theorem Does.handleOpen {p : APacket} (hc : p.msg.command = A_OPEN)
    (hopen : w.core.PipesOpen t) :
    Does ((Task.packet t p).May c₀) w (handleOpen p t) fun _ w' => w'.hand = w.hand := by
  have hne : p.msg.command ≠ A_SYNC := by rw [hc]; decide
  intro hw
  rw [Adbd.handleOpen, wp_bind]
  refine wp_createLocalServiceSocket hw ?_ (fun kind fd writeFd exit hk hkn => ?_)
    fun x hx hn => Does.excused ⟨hx, hn⟩
  · exact Does.sendFresh (fun _ => rfl) hopen trivial (fun T _ =>
      Task.may_answer hne (by simp [APacket.finish, A_CLSE, A_SYNC])) hw
  · dsimp only
    rw [wp_bind]
    refine wp_attachRemote (Function.update_self ..) ?_ (fun T hT x hx => ?_) (fun T hT => ?_)
      fun _ => Does.excused trivial
    · simp [Core.created]
    · obtain ⟨d, hd, -⟩ := (hw.graph.disconnects (by exact hT)).2 x hx
      by_cases hxn : x = w.core.nextSock
      · simp [Core.created, hxn]
      · simp [Core.created, hxn, hd]
    · have hT' : w.core.transports t = some T := hT
      -- the stream that is opened
      let d : Open := ⟨kind, fd, writeFd, exit, p.msg.arg0, t, T⟩
      have hgd : Op.Guard w (.openStream d) := ⟨hk, hkn, hT'⟩
      have hmay : (Task.packet t p).May c₀ w (.openStream d) := ⟨p, rfl, hc⟩
      rw [wp_bind]
      refine (wp_getSock_of (by simp [Core.attached]; rfl)).mpr ?_
      rw [wp_bind]
      refine wp_sendOkay (fun T' hT₂ _ => ?_) (fun T' hT₂ ho => ?_) fun _ =>
        Does.excused trivial
      case refine_2 =>
        obtain rfl :
          { T with disconnects := T.disconnects ++ [w.core.nextSock + 1] } = T' := by
          simpa [Core.attached, Core.created] using hT₂
        have hshut : w.core.canWrite t T = false := Core.canWrite_eq_false ho rfl rfl
        exact Does.excused ⟨T, hT', hshut, fun hc => absurd (hopen T hT') (by simp [hc])⟩
      obtain rfl : { T with disconnects := T.disconnects ++ [w.core.nextSock + 1] } = T' := by
        simpa [Core.attached, Core.created] using hT₂
      rw [wp_bind, wp_note]
      change wp (callReady w.core.nextSock) _ _ (w.core.opening d)
      by_cases hloc : kind = .localSocket
      · rw [callReady, wp_bind]
        refine (wp_getSock_of (w.core.opening_sockets d)).mpr ?_
        dsimp only [d]
        rw [hloc, localSocketReady, wp_modLoop]
        refine ⟨w.hand, ?_, rfl⟩
        have heq := w.core.openStream_eq d
        rw [if_pos hloc] at heq
        have hone := Ops.one _ hgd hmay
        rw [Op.apply, Op.effect, heq] at hone
        subst hloc
        exact hone
      · have heq : Op.effect w.core (.openStream d) = w.core.opening d := by
          rw [Op.effect, Core.openStream_eq, if_neg hloc]
        have hj : kind.isJdwp = true := by
          revert hk hkn hloc
          cases kind <;> simp [SockKind.isEnd, SockKind.isJdwp]
        rw [← heq]
        refine Does.after (P := (Task.packet t p).May c₀) (Q := fun _ w' => w'.hand = w.hand)
          (.openStream d) hw hgd hmay ?_
        have hs : ((Op.openStream d).apply w).core.sockets w.core.nextSock = _ :=
          (congrFun (congrArg Core.sockets heq) _).trans (w.core.opening_sockets d)
        exact Does.jdwpReady hs hj (.inr ⟨t, p, rfl, .inl hc⟩) (by simp)

/-! ### OKAY -/

/-- A socket of the list without a peer waits for its `OKAY`. -/
theorem Graph.waiting (hg : Graph c) (hs : c.sockets s = some a) (hc : a.closing = false)
    (hp : a.peer = none) : a.kind = .localNotify := by
  simpa [hc] using (hg.shape hs).peer.mp hp

/-- The memory after an `OKAY` attached a waiting socket. -/
theorem Core.attach_eq (c : Core) (hk : a.kind = .localNotify)
    {id : UInt32} {m : AMessage} :
    ((((((c.note (.delivered t s m)).attached s a id t T).note (.opened s)).putSock s
      (some { a with kind := .localSocket, peer := some c.nextSock })).note
      (.status a.fd true)).onLoop (·.fdeventAdd (.sock s) Events.onlyRead)) =
        c.attach s a id t T m := by
  apply Core.ext
  case sockets =>
    funext x
    by_cases hx : x = s
    · simp [hx, Core.onLoop, Core.note, Core.putSock, Core.attach]
    · simp only [Core.onLoop, Core.note, Core.putSock, Core.attach, Core.attached, hx,
        if_false, ne_eq, not_false_eq_true, Function.update_of_ne]
      rfl
  case log =>
    simp [Core.onLoop, Core.note, Core.putSock, Core.attach, Core.attached, hk]
  all_goals rfl

/-- The `A_OKAY` case for a socket that a smart socket rigged: it becomes one end of a
stream. -/
theorem wp_handleOkay_waiting {Q : Unit → Core → Prop} {p : APacket} (hg : Graph c)
    (hf : c.find p.msg.arg1 = some s) (hs : c.sockets s = some a) (hp : a.peer = none)
    (hQ : ∀ T, c.transports t = some T → Q () (c.attach s a p.msg.arg0 t T p.msg))
    (hE : c.transports t = none → E (.staleTransport t)) : wp (handleOkay p t) Q E c := by
  obtain ⟨a', hs', hk, hcl, -⟩ := hg.find_some hf
  obtain rfl : a = a' := Option.some.inj (hs.symm.trans hs')
  have hkn := hg.waiting hs hcl hp
  have hne : s ≠ c.nextSock := Nat.ne_of_lt (hg.fresh hs)
  rw [handleOkay, wp_bind, wp_findLocalSocket hg, hf]
  dsimp only
  rw [wp_bind, wp_note, wp_bind]
  refine (wp_getSock_of (by exact hs)).mpr ?_
  rw [if_pos hp, wp_bind]
  refine wp_attachRemote (by exact hs) hne (fun T hT x hx => ?_) (fun T hT => ?_) hE
  · obtain ⟨d, hd, -⟩ := (hg.disconnects (by exact hT)).2 x hx
    exact fun hn => by simp [Core.note, hd] at hn
  · rw [wp_bind, wp_note, callReady, wp_bind]
    refine (wp_getSock_of (by simp [Core.note, Core.attached]; rfl)).mpr ?_
    dsimp only
    rw [hkn]
    simp only [localSocketReadyNotify]
    rw [wp_bind]
    refine (wp_getSock_of (by simp [Core.note, Core.attached]; rfl)).mpr ?_
    rw [wp_bind]
    refine (wp_modSock_of (by simp [Core.note, Core.attached]; rfl)).mpr ?_
    rw [wp_bind, wp_note, localSocketReady, wp_modLoop]
    exact (congrArg (Q ()) (c.attach_eq hkn)).mpr (hQ T hT)

/-- The `A_OKAY` case for one end of a stream: it is read again. -/
theorem wp_handleOkay_ready {Q : Unit → Core → Prop} {p : APacket} (hg : Graph c)
    (hf : c.find p.msg.arg1 = some s) (hs : c.sockets s = some a) (hk : a.kind = .localSocket)
    (hp : a.peer ≠ none)
    (hQ : Q () ((c.note (.delivered t s p.msg)).onLoop
      (·.fdeventAdd (.sock s) Events.onlyRead))) : wp (handleOkay p t) Q E c := by
  rw [handleOkay, wp_bind, wp_findLocalSocket hg, hf]
  dsimp only
  rw [wp_bind, wp_note, wp_bind]
  refine (wp_getSock_of (by exact hs)).mpr ?_
  rw [if_neg hp, callReady, wp_bind]
  refine (wp_getSock_of (by exact hs)).mpr ?_
  rw [hk]
  exact hQ

/-- The `A_OKAY` case. -/
theorem Does.handleOkay {p : APacket} (hc : p.msg.command = A_OKAY) :
    Does ((Task.packet t p).May w.core) w (handleOkay p t) fun _ w' => w'.hand = w.hand := by
  refine .wf fun hw => ?_
  cases hf : w.core.find p.msg.arg1 with
  | none =>
      rw [Adbd.handleOkay]
      refine .find ?_
      rw [hf]
      exact .pure rfl
  | some s =>
      obtain ⟨a, hs, hk, hcl, -⟩ := hw.graph.find_some hf
      have hgets : (Task.packet t p).Gets w.core t s p.msg := ⟨p, rfl, rfl, hf⟩
      by_cases hp : a.peer = none
      · -- the first OKAY for a socket that a smart socket rigged
        have hkn := hw.graph.waiting hs hcl hp
        refine fun _ => wp_handleOkay_waiting hw.graph hf hs hp (fun T hT => ?_)
          fun _ => Does.excused trivial
        have hgd : Op.Guard w (.attach s a p.msg.arg0 t T p.msg) :=
          ⟨hs, by simp [hkn, SockKind.isLocal], hp, hcl, hT⟩
        exact ⟨w.hand, Ops.one _ hgd ⟨hgets, hc, rfl, rfl⟩, rfl⟩
      · by_cases hj : a.kind.isJdwp = true
        · -- a JDWP socket sends its list, or ends the stream
          rw [Adbd.handleOkay]
          refine .find ?_
          rw [hf]
          refine .op (r := ()) (.deliver t s p.msg)
            (fun _ => ⟨a, hs, hk, .inl hj⟩) hgets rfl ?_
          refine .getSock hs ?_
          rw [if_neg hp]
          exact Does.jdwpReady hs hj (.inr ⟨t, p, rfl, .inr ⟨hc, hf⟩⟩)
            fun _ => ⟨t, p, rfl, .inl hc, hf⟩
        · have hkl : a.kind = .localSocket := by
            have hnn : a.kind ≠ .localNotify := fun hn =>
              hp ((hw.graph.shape hs).peer.mpr (.inl hn))
            revert hk hj hnn
            cases a.kind <;> simp [SockKind.isEnd, SockKind.isJdwp]
          have hgd : Op.Guard w (.ready s t p.msg) := ⟨a, hs, hkl, hcl⟩
          exact fun _ => wp_handleOkay_ready hw.graph hf hs hkl hp
            ⟨w.hand, Ops.one _ hgd ⟨hgets, hc, rfl⟩, rfl⟩

/-! ### CLSE -/

/-- The `A_CLSE` case. -/
theorem Does.handleClse {p : APacket} (hc : p.msg.command = A_CLSE) :
    Does ((Task.packet t p).May w.core) w (handleClse p t) fun _ w' => w'.hand = w.hand := by
  refine .wf fun hw => ?_
  rw [Adbd.handleClse]
  refine .find ?_
  cases hf : w.core.find p.msg.arg1 with
  | none => exact .pure rfl
  | some s =>
      obtain ⟨a, hs, hk, -⟩ := hw.graph.find_some hf
      have hgets : (Task.packet t p).Gets w.core t s p.msg := ⟨p, rfl, rfl, hf⟩
      have hcmd : p.msg.command ≠ A_OKAY ∧ p.msg.command ≠ A_WRTE := by
        rw [hc]
        decide
      refine .op (r := ()) (.deliver t s p.msg) (fun _ => ⟨a, hs, hk, .inr hcmd⟩) hgets rfl ?_
      refine (Does.closeEnd (v := .call) (by exact hs) hk (.inl rfl)
        fun l => .inl ⟨t, p.msg, hgets, hc⟩).mono ?_
      rintro _ w' - ⟨l, rfl⟩
      rfl

/-! ### WRTE -/

/-- `enqueue` of a local socket. -/
theorem wp_callEnqueue_local {Q : Int → Core → Prop} {p : APacket} (hs : c.sockets s = some a)
    (hl : a.kind.isLocal = true) :
    wp (callEnqueue s p) Q E c ↔ wp (localSocketEnqueue s p) Q E c := by
  rw [callEnqueue, wp_bind, wp_getSock_of hs]
  revert hl
  cases a.kind <;> simp [SockKind.isLocal]

/-- Appending to the queue of a socket. -/
theorem wp_linkTail {Q : Unit → Core → Prop} {p : APacket} (hs : c.sockets s = some a) :
    wp (linkTail s p) Q E c ↔ Q () (c.link s a p) := by
  rw [linkTail, wp_bind, wp_modSock_of hs, wp_modLoop]
  rfl

/-- The accepted bytes are the first ones of the packet. -/
theorem take_writeLoop (ws : List WriteRes) (bs : List UInt8) :
    bs.take (writeLoop ws bs).bytes.length = (writeLoop ws bs).bytes := by
  have h := writeLoop_append ws bs
  exact (congrArg (List.take _) h.symm).trans (List.take_left ..)

/-- A `WRTE` packet for a local socket: its payload is queued behind others, written at
once and acknowledged, queued because the write would block, or lost with the stream. -/
theorem Does.wrteLocal {p : APacket} (hc : p.msg.command = A_WRTE) (hm : p.addr ∈ w.hand)
    (hf : w.core.find p.msg.arg1 = some s) (hs : w.core.sockets s = some a)
    (hl : a.kind.isLocal = true) (hcl : a.closing = false) (hopen : w.core.PipesOpen t) :
    Does ((Task.packet t p).May w.core) w (deliverWrte p t s)
      fun _ w' => w'.hand = w.hand.erase p.addr := by
  obtain ⟨p', hp'⟩ : ∃ p' : APacket, p' = { p with len := p.msg.dataLength.toNat, ptr := 0 } :=
    ⟨_, rfl⟩
  have haddr : p'.addr = p.addr := by rw [hp']
  have hmsg : p'.msg = p.msg := by rw [hp']
  have htakes : (Task.packet t p).Takes w.core t s a p' := by
    rw [hp']
    exact ⟨⟨p, rfl, rfl, hf⟩, hc, hs, p, rfl, rfl⟩
  have hend : a.kind.isEnd = true := by
    revert hl
    cases a.kind <;> simp [SockKind.isLocal, SockKind.isEnd]
  intro hw
  rw [deliverWrte, wp_bind, wp_note, wp_bind]
  refine (wp_callEnqueue_local (by exact hs) hl).mpr ?_
  rw [localSocketEnqueue, wp_bind]
  refine (wp_getSock_of (by exact hs)).mpr ?_
  dsimp only
  rw [← hp', wp_bind, wp_note]
  by_cases hq : a.queue = []
  · rw [if_neg (by simpa using hq)]
    obtain ⟨r, hr⟩ : ∃ r, r = writeLoop w.core.io.writes p'.bytes := ⟨_, rfl⟩
    have hio : ((w.core.note (.delivered t s p.msg)).note (.taken s p'.bytes)).io =
      w.core.io := rfl
    rw [wp_bind, wp_get, hio, ← hr, wp_bind, setWrites, wp_modify, wp_bind, wp_note]
    -- the results of the writes that were made are taken off first
    obtain ⟨w₁, hw₁⟩ : ∃ w₁,
      w₁ = (Op.io { w.core.io with writes := r.left }).apply w := ⟨_, rfl⟩
    have hio₁ : Ops ((Task.packet t p).May w.core) w w₁ := by
      rw [hw₁]
      exact Ops.one _ trivial trivial
    have hs₁ : w₁.core.sockets s = some a := by rw [hw₁]; exact hs
    have hm₁ : p'.addr ∈ w₁.hand := by rw [hw₁, haddr]; exact hm
    have hlog₁ : w₁.core.log = w.core.log := by rw [hw₁]; rfl
    have hhand : w₁.hand = w.hand := by rw [hw₁]; rfl
    refine (congrArg (wp _ _ _) (?_ : ((w₁.core.note (.delivered t s p.msg)).note
      (.taken s p'.bytes)).note (.wrote s r.bytes) = _)).mp ?_
    · rw [hw₁]
      rfl
    cases hv : r.verdict with
    | failed =>
        have hfail : (Task.packet t p).May w.core w₁ (.wrteFail t s p.msg p' r.bytes) :=
          ⟨a, htakes, hmsg.symm, hl, hq, hr ▸ hv⟩
        have hgd : Op.Guard w₁ (.wrteFail t s p.msg p' r.bytes) := ⟨a, hs₁, hl, hcl⟩
        have hlose : (Task.packet t p).May w.core ((Op.wrteFail t s p.msg p' r.bytes).apply w₁)
            (.lose p'.addr) := ⟨t, s, a, p', htakes, rfl, hl, hq, hr ▸ hv⟩
        have hops :=
          (hio₁.trans (Ops.one _ hgd hfail)).trans (Ops.one (.lose p'.addr) hm₁ hlose)
        have hs₃ : ((Op.lose p'.addr).apply
            ((Op.wrteFail t s p.msg p' r.bytes).apply w₁)).core.sockets s = some a := hs₁
        have hlog : ∃ l, ((Op.lose p'.addr).apply
            ((Op.wrteFail t s p.msg p' r.bytes).apply w₁)).core.log = l ++ w.core.log ∧
            Obs.writeFailed s ∈ l := by
          refine ⟨[.writeFailed s, .wrote s r.bytes, .taken s p'.bytes, .delivered t s p.msg],
            ?_, List.mem_cons_self ..⟩
          rw [← hlog₁]
          rfl
        have hclose := Does.afterOps hops hw (Does.closeEnd (v := .call) hs₃ hend (.inl rfl)
          fun l => .inr ⟨hlog, .inr ⟨t, p.msg, ⟨p, rfl, rfl, hf⟩, hc⟩⟩)
        dsimp only
        rw [wp_bind, wp_note, wp_bind]
        refine wp_mono (by exact hclose) ?_ fun _ => id
        rintro _ c' ⟨H, hops', l, hH⟩
        refine ⟨H, hops', ?_⟩
        have hand := congrArg Work.hand hH
        simpa [Op.handle, haddr, hhand] using hand
    | drained =>
        have hbytes : r.bytes = p'.bytes := by
          rw [hr]
          exact (writeLoop_drained_iff _ _).mp (hr ▸ hv)
        have hlive : w₁.core.livePkts p'.addr = true := by
          rw [hw₁]
          exact hw.pkts.live (o := .hand) (by rw [haddr]; exact hm)
        have htr : w₁.core.transports = w.core.transports := by rw [hw₁]; rfl
        have hcut : w₁.core.cut = w.core.cut := by rw [hw₁]; rfl
        dsimp only
        rw [wp_bind, wp_note, wp_bind]
        refine (wp_putApacket (by exact hlive)).mpr ?_
        rw [wp_pure, if_pos rfl, wp_bind]
        refine (wp_getSock_of (by exact hs₁)).mpr ?_
        refine wp_sendOkay (fun T hT _ => ?_) (fun T hT ho => ?_) fun _ => Does.excused trivial
        · have hgd : Op.Guard _ (.wrteDone t s a T p.msg p') := ⟨hs₁, hl, hcl, hq, hm₁, hT⟩
          have hops := hio₁.trans (Ops.one _ hgd ⟨htakes, hmsg.symm, hlog₁⟩)
          rw [hbytes]
          exact ⟨_, hops, by simp [Op.handle, hhand, haddr]⟩
        · have hT' : w.core.transports t = some T := htr ▸ hT
          have hshut : w.core.canWrite t T = false :=
            Core.canWrite_eq_false ho (by simp [Core.freePkts, Core.note, hcut]) rfl
          exact Does.excused ⟨T, hT', hshut, fun hc => absurd (hopen T hT') (by simp [hc])⟩
    | wouldBlock =>
        dsimp only
        rw [wp_bind]
        refine (wp_linkTail (by exact hs₁)).mpr ?_
        have hgd : Op.Guard w₁ (.wrteBlock t s a p.msg p' r.bytes) :=
          ⟨hs₁, hl, hcl, hq, hm₁, by rw [hr]; exact take_writeLoop _ _⟩
        have hops := hio₁.trans (Ops.one _ hgd ⟨htakes, hmsg.symm, hlog₁, hr ▸ hv⟩)
        exact ⟨_, hops, by simp [Op.handle, hhand, haddr]⟩
  · rw [if_pos hq, wp_bind]
    refine (wp_linkTail (by exact hs)).mpr ?_
    have hgd : Op.Guard w (.wrteQueue t s a p.msg p') := ⟨hs, hl, hcl, hq, haddr ▸ hm⟩
    exact ⟨_, Ops.one _ hgd ⟨htakes, hmsg.symm, rfl⟩, congrArg _ haddr⟩

/-- The `A_WRTE` case. -/
theorem Does.handleWrte {p : APacket} (hc : p.msg.command = A_WRTE) (hm : p.addr ∈ w.hand)
    (hopen : w.core.PipesOpen t) :
    Does ((Task.packet t p).May w.core) w (handleWrte p t)
      fun _ w' => w'.hand = w.hand.erase p.addr := by
  refine .wf fun hw => ?_
  rw [Adbd.handleWrte]
  refine .find ?_
  cases hf : w.core.find p.msg.arg1 with
  | none => exact .free hm trivial
  | some s =>
      obtain ⟨a, hs, hk, hcl, -⟩ := hw.graph.find_some hf
      by_cases hj : a.kind.isJdwp = true
      · -- a JDWP socket takes no data: it ends the stream
        have hgets : (Task.packet t p).Gets w.core t s p.msg := ⟨p, rfl, rfl, hf⟩
        dsimp only
        rw [deliverWrte]
        refine .op (r := ()) (.deliver t s p.msg) (fun _ => ⟨a, hs, hk, .inl hj⟩) hgets rfl ?_
        have hserve : ∃ t' p', Task.packet t p = .packet t' p' ∧ (p'.msg.command = A_OKAY ∨
            p'.msg.command = A_WRTE) ∧ w.core.find p'.msg.arg1 = some s :=
              ⟨t, p, rfl, .inr hc, hf⟩
        refine .bind (Does.jdwpEnqueue (by exact hs) hj (by exact hm) hserve) ?_
        rintro _ w' ⟨rfl, hh⟩
        rw [if_neg (by decide)]
        exact .pure hh
      · refine Does.wrteLocal hc hm hf hs ?_ hcl hopen
        revert hk hj
        cases a.kind <;> simp [SockKind.isEnd, SockKind.isJdwp, SockKind.isLocal]

/-! ### handle_packet -/

/-- The cases of `handle_packet` that do not use up the packet. -/
theorem Does.handleCommand {p : APacket} (hopen : w.core.PipesOpen t) :
    Does ((Task.packet t p).May w.core) w (handleCommand p t T) fun _ w' =>
      w'.hand = w.hand := by
  rw [Adbd.handleCommand]
  split
  · next hc => exact .handleCnxn hc hopen
  split
  · next hc => exact .handleAuth hc hopen
  split
  · next hc =>
    split
    · exact .handleOpen hc hopen
    · exact .pure rfl
  split
  · next hc =>
    split
    · exact .handleOkay hc
    · exact .pure rfl
  split
  · next hc =>
    split
    · exact .handleClse hc
    · exact .pure rfl
  · exact .pure rfl

/-- **`handle_packet`** frees the packet or hands it on, on every path. -/
theorem Does.handlePacket {p : APacket} (hm : p.addr ∈ w.hand) (hopen : w.core.PipesOpen t) :
    Does ((Task.packet t p).May w.core) w (handlePacket p t)
      fun _ w' => w'.hand = w.hand.erase p.addr := by
  rw [Adbd.handlePacket]
  refine .getTransport fun T _ => ?_
  split
  · next hc => exact (Does.handleSync hm hc hopen).mono fun _ _ _ h => h.1
  split
  · next hc =>
    split
    · exact .handleWrte hc hm hopen
    · exact .free hm trivial
  · refine .bind (Does.handleCommand hopen) ?_
    rintro _ w' hh
    rw [← hh]
    exact .free (by rw [hh]; exact hm) trivial

end Adbd
