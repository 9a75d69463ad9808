import Adbd.Packets

/-!
# Steps as Sequences of Operations

Every step of the daemon runs one handler, and performs a sequence of operations that
`Task.May` allows that handler. This module puts the handlers together: the callbacks of
the main loop, the sections of the I/O threads, and the registration of transports.

## Main definitions

* `System.task`: the handler a step runs.
* `System.start`: the memory it starts from.
* `System.Handles`: the memory with which a step calls `handle_packet`.

## Main results

* `step_ops`: a step that leads to a state performs operations its handler may perform.
* `step_fault`: a step that ends in a fault does so after such operations, and the fault is
  excused.
* `System.Handles.step_eq`: a step that handles a packet is a call of `handle_packet`.
-/

namespace Adbd

open Program Custody

variable {c c₀ : Core} {s : SockId} {a : ASocket} {t : TId} {T : ATransport} {w : Work}
    {k : Task}

/-! ### Callbacks of the main loop -/

/-- `jdwp_process_list_updated`. -/
theorem Does.jdwpUpdateFrom {msg : List UInt8} {l : List SockId} {w : Work}
    (hl : ∀ x ∈ l, x ∈ w.core.jdwpTrackersList) :
    Does (Task.jdwp.May c₀) w (jdwpUpdateFrom msg l) fun _ w' => w'.hand = w.hand := by
  induction l generalizing w with
  | nil => exact .pure rfl
  | cons x l ih =>
      refine .wf fun hw => ?_
      have hx : x ∈ w.core.jdwpTrackersList := hl x (by simp)
      rw [Adbd.jdwpUpdateFrom]
      refine .dataPacket trivial ?_
      cases hs : w.core.sockets x with
      | none =>
          -- close_all_sockets freed the tracker and left it on the list
          intro _
          rw [wp_bind, Adbd.peerOf, wp_bind, wp_getSock]
          refine ⟨fun a ha => ?_, fun _ => Does.excused ⟨hx, hs⟩⟩
          simp [Op.effect, Core.newPkt, hs] at ha
      | some a =>
          have hk : a.kind = .jdwpTracker := (hw.graph.mem_trackers hs).mp hx
          have hj : a.kind.isJdwp = true := by simp [hk, SockKind.isJdwp]
          obtain ⟨q, b, hp, hb, hkb⟩ := hw.graph.jdwp_peer hs hj
          obtain ⟨t, T, hr⟩ := hw.graph.remoteOf hs hp hb hkb
          refine .peerOf (by exact hs) hp ?_
          refine .enqueueList (h := ⟨hr.sock, hkb, hr.peer, hs, hr.transport, hr.live⟩) hj
            (by simp [Op.handle]) ⟨.inl rfl, rfl⟩ ?_
          refine (ih (by exact fun y hy => hl y (by simp [hy]))).mono ?_
          rintro _ w' - hh
          rw [hh]
          simp [Op.handle]

/-- A JDWP process comes or goes. -/
theorem Does.jdwpProcessEvent {ev : Events} :
    Does (Task.jdwp.May c₀) w (jdwpProcessEvent ev) fun _ w' => w'.hand = w.hand := by
  rw [Adbd.jdwpProcessEvent]
  split
  · refine .op (r := ⟨⟩) (.pids w.core.io.pids) (fun _ => trivial) trivial rfl ?_
    rw [jdwpProcessListUpdated]
    exact .get (.jdwpUpdateFrom fun _ hx => hx)
  · exact .pure rfl

/-- `ss_listener_event_func`. -/
theorem Does.ssListenerEventFunc {ev : Events} :
    Does (Task.accept.May c₀) w (ssListenerEventFunc ev) fun _ w' => w'.hand = w.hand := by
  rw [Adbd.ssListenerEventFunc]
  split
  · refine .get ?_
    cases w.core.io.accepted with
    | none => exact .pure rfl
    | some fd =>
        intro hw
        dsimp only
        rw [wp_bind]
        refine wp_createLocalSocketPair hw ?_
        -- the two ends are linked to each other, and the client is watched for FDE_READ
        rw [connectToSmartsocket, wp_bind, wp_allocSock, wp_bind]
        refine (wp_modSock_of (a := { kind := .localSocket, id := w.core.localSocketNextId,
                                      fd := fd, writeFd := fd }) ?_).mpr ?_
        · simp [Core.created, Core.putSock]
        rw [wp_bind]
        refine (wp_modSock_of (a := { kind := .smartSocket }) ?_).mpr ?_
        · simp [Core.created, Core.putSock]
        rw [callReady, wp_bind]
        refine (wp_getSock_of (a := { kind := .localSocket, id := w.core.localSocketNextId,
                                      fd := fd, writeFd := fd,
                                      peer := some (w.core.nextSock + 1) }) ?_).mpr ?_
        · simp [Core.created, Core.putSock]
        refine Does.one (r := ()) (Q := fun _ w' => w'.hand = w.hand)
          (.accept fd) trivial rfl ?_ rfl
        apply Core.ext
        case sockets =>
          funext x
          by_cases hx : x = w.core.nextSock
          · simp [hx, Op.effect, Core.accept, Core.putSock, Core.created]
          · by_cases hx' : x = w.core.nextSock + 1
            · simp [hx', Op.effect, Core.accept, Core.putSock, Core.created]
            · simp [hx, hx', Op.effect, Core.accept, Core.putSock, Core.created]
        all_goals rfl
  · exact .pure rfl

/-- The packet `transport_socket_events` reads, if any. -/
def Core.received (c : Core) (t : TId) : Option APacket :=
  (c.transports t).bind fun T => if c.canRead t T then T.ioToMain.head? else none

/-- The handler that the callback of a socket or a transport is. -/
def Core.taskOf (c : Core) (k : FdeId) (ev : Events) : Task :=
  match k with
  | .sock s => if ev.write then .write s else if ev.read then .read s else .idle
  | .transport t =>
      if ev.read then (c.received t).elim .idle (.packet t) else .idle
  | _ => .idle

/-- `transport_socket_events`. -/
theorem Does.transportSocketEvents {ev : Events} (hh : w.hand = []) :
    Does ((w.core.taskOf (.transport t) ev).May w.core) w (transportSocketEvents t ev)
      fun _ w' => w'.hand = [] := by
  rw [Adbd.transportSocketEvents, Core.taskOf]
  split
  · refine .getTransport fun T hT => ?_
    cases hq : T.ioToMain with
    | nil => exact .pure hh
    | cons p rest =>
        refine .get ?_
        by_cases hread : w.core.canRead t T = true
        · rw [if_pos hread]
          have hpipe := Core.pipesOpen_of_canRead hread
          have hrec : w.core.received t = some p := by
            simp [Core.received, hT, hread, hq]
          rw [hrec]
          dsimp only [Option.elim]
          refine .op (r := ()) (.popMain t T p rest) (fun _ => ⟨hT, hq⟩) rfl
            (modTransport_eq hT) ?_
          have hmem : p.addr ∈ ((Op.popMain t T p rest).apply w).hand := by simp [Op.handle]
          have hopen : ((Op.popMain t T p rest).apply w).core.PipesOpen t :=
            Core.PipesOpen.put (fun T' hT' => Option.some.inj (hT.symm.trans hT') ▸ hpipe) hT
              (Function.update_self ..) rfl
          refine ((Does.handlePacket hmem hopen).imp fun x o ho => ?_).mono ?_
          · exact ho.congr rfl rfl rfl rfl fun _ => rfl
          · rintro _ w' - hh'
            rw [hh']
            simp [Op.handle, hh]
        · rw [if_neg hread]
          exact .pure hh
  · exact .pure hh

/-- `local_socket_event_func`. -/
theorem Does.localSocketEventFunc {ev : Events} (hs : w.core.sockets s = some a)
    (hl : a.kind.isLocal = true) (hq : ev.write = true → a.queue ≠ [])
    (he : (w.core.loop.fdes (.sock s)).events = {}) :
    Does ((w.core.taskOf (.sock s) ev).May w.core) w (localSocketEventFunc s ev)
      fun _ w' => w'.hand = w.hand := by
  rw [Adbd.localSocketEventFunc, Core.taskOf]
  split
  · next hw => exact .writeEvent hs hl (hq hw) he
  split
  · exact .readEvent hs hl
  · exact .pure rfl

/-- The handler that `fdevent_subproc_event_func` runs: the callback of the record that was
reported, unless that waits for its turn or has data left. -/
def Core.forcedTask (c : Core) (io : Io) : Task :=
  match io.subproc with
  | some k =>
      if (c.loop.fdes k).active ∧ io.rcount = 0 ∧ (c.loop.fdes k).pending = false then
        c.taskOf k Events.onlyRead
      else .idle
  | none => .idle

/-- The event loop after `fdevent_subproc_event_func` marked a record. -/
def Core.forced (c : Core) (k : FdeId) : Core :=
  c.onLoop fun l => l.put k { l.fdes k with forceEof := true }

theorem Core.forced_fdes (c : Core) (k j : FdeId) : (c.forced k).loop.fdes j =
    if j = k then { c.loop.fdes k with forceEof := true } else c.loop.fdes j := by
  by_cases hj : j = k
  · subst hj
    simp [Core.forced]
  · simp [Core.forced, hj, Loop.put_fdes_of_ne _ _ hj]

/-- Clearing the events of a record that carries none changes nothing. -/
theorem Core.forced_clear {k : FdeId} (he : (c.loop.fdes k).events = {}) :
    (c.forced k).onLoop (fun l => l.put k { l.fdes k with events := {} }) = c.forced k := by
  have hf := c.forced_fdes k k
  rw [if_pos rfl] at hf
  simp only [Core.onLoop, Loop.put, hf, ← he]
  rw [← hf]
  simp

/-- The forced callback of a record that is not pending. -/
theorem Does.forcedCallback {k : FdeId} (hw : WF w) (hh : w.hand = [])
    (ha : (w.core.loop.fdes k).active = true) (he : (w.core.loop.fdes k).events = {}) :
    Does ((w.core.taskOf k Events.onlyRead).May w.core) ((Op.force k).apply w)
      (match k with
      | .sock s => Adbd.localSocketEventFunc s Events.onlyRead
      | .transport t => Adbd.transportSocketEvents t Events.onlyRead
      | _ => Pure.pure ()) fun _ w' => w'.hand = [] := by
  have hint (x : SockId) : (w.core.loop.fdes (.sock x)).interest =
      (((Op.force k).apply w).core.loop.fdes (.sock x)).interest := by
    change _ = ((w.core.forced k).loop.fdes (.sock x)).interest
    rw [Core.forced_fdes]
    split
    · next hx => rw [hx]
    · rfl
  cases k with
  | sock s =>
      obtain ⟨a, hs, hl⟩ := (hw.watch.sock s).1.mp ha
      have he' : (((Op.force (.sock s)).apply w).core.loop.fdes (.sock s)).events = {} := by
        change ((w.core.forced (.sock s)).loop.fdes (.sock s)).events = {}
        rw [Core.forced_fdes, if_pos rfl]
        exact he
      refine Does.mono (Does.imp (Does.localSocketEventFunc (by exact hs) hl
        (by simp [Events.onlyRead]) he') fun x o ho => ?_) ?_
      · exact ho.congr rfl rfl rfl rfl hint
      · rintro _ w' - hh'
        exact hh'.trans hh
  | transport t =>
      refine Does.imp (Does.transportSocketEvents (by exact hh)) fun x o ho => ?_
      exact ho.congr rfl rfl rfl rfl hint
  | registration | subproc | ssListener | jdwp => exact .pure hh

/-- `fdevent_subproc_event_func`. -/
theorem Does.fdeventSubprocEventFunc {ev : Events} (hh : w.hand = []) (hr : ev.read = true) :
    Does ((w.core.forcedTask w.core.io).May w.core) w (fdeventSubprocEventFunc ev)
      fun _ w' => w'.hand = [] := by
  refine .wf fun hw => ?_
  rw [Adbd.fdeventSubprocEventFunc, hr]
  refine .get ?_
  cases hk : w.core.io.subproc with
  | none => simpa only [hk] using .pure hh
  | some k =>
      simp only [hk]
      refine .get ?_
      by_cases ha : (w.core.loop.fdes k).active = true
      · rw [if_pos ha]
        refine .op (r := ()) (.force k) (fun _ => ha) trivial rfl ?_
        by_cases hn : w.core.io.rcount = 0
        · rw [if_neg (by simpa using hn)]
          by_cases hp : (w.core.loop.fdes k).pending = true
          · rw [if_pos hp]
            refine .last (r := ()) (.pendRead k) (fun _ => ?_) trivial rfl hh
            change ((w.core.forced k).loop.fdes k).pending = true
            rw [Core.forced_fdes, if_pos rfl]
            exact hp
          · have hp' : (w.core.loop.fdes k).pending = false := by simpa using hp
            have he := hw.watch.wf.events k hp'
            have hev : (w.core.loop.fdes k).events.union Events.onlyRead =
              Events.onlyRead := by
              rw [he]
              rfl
            have htask : w.core.forcedTask w.core.io = w.core.taskOf k Events.onlyRead := by
              simp [Core.forcedTask, hk, ha, hn, hp']
            rw [if_neg hp, hev, htask]
            intro hw'
            rw [wp_bind, wp_modLoop]
            exact (congrArg (wp _ _ _) (Core.forced_clear he)).mpr
              (Does.forcedCallback hw hh ha he hw')
        · rw [if_pos hn]
          exact .pure hh
      · rw [if_neg ha]
        exact .pure hh

/-! ### Threads and registration -/

/-- Writing a packet into the pipe to the main loop. -/
theorem Does.postToMain {m : AMessage} {data : List UInt8} :
    Does ((Task.post t m data).May c₀) w (postToMain t m data) fun _ w' =>
      w'.hand = w.hand := by
  rw [Adbd.postToMain]
  refine .op (r := { addr := w.core.nextPkt }) .newPkt (fun _ => trivial) trivial rfl ?_
  intro _
  rw [wp_modTransport]
  refine ⟨fun T hT => ?_, fun _ => Does.excused trivial⟩
  have hgd : Op.Guard (Op.newPkt.apply w)
      (.post t T { addr := w.core.nextPkt, msg := m, data := data }) :=
        ⟨hT, by simp [Op.handle]⟩
  exact ⟨_, Ops.one _ hgd rfl, by simp [Op.handle]⟩

/-- Taking a packet out of the pipe from the main loop. -/
theorem Does.takeFromMain :
    Does ((Task.pop t).May c₀) w (takeFromMain t) fun _ w' => w'.hand = w.hand := by
  rw [Adbd.takeFromMain]
  refine .getTransport fun T hT => ?_
  cases hq : T.mainToIo with
  | nil => exact .pure rfl
  | cons p rest =>
      refine .op (r := ()) (.popIo t T p rest) (fun _ => ⟨hT, hq⟩) rfl (modTransport_eq hT) ?_
      refine (Does.free (by simp [Op.handle]) trivial).mono ?_
      rintro _ w' - hh
      rw [hh]
      simp [Op.handle]

/-- The registration branch of `transport_registration_func`. -/
theorem Does.registerTransport {type : TransportType} (hT : w.core.transports t = none) :
    Does ((Task.register t).May c₀) w (registerTransport t type) fun _ w' =>
      w'.hand = w.hand :=
  .last (r := ()) (.register t type) (fun _ => hT) rfl rfl rfl

/-- The removal branch of `transport_registration_func`: in the end the transport is gone,
and the others are as they were. -/
theorem Does.removeTransport :
    Does ((Task.remove t).May w.core) w (removeTransport t) fun _ w' => w'.hand = w.hand ∧
      w'.core.transportList = w.core.transportList.erase t ∧ w'.core.transports t = none ∧
      (w'.core.loop.fdes (.transport t)).active = false := by
  rw [Adbd.removeTransport]
  refine .get ?_
  refine .bind (Does.closeAllSockets (.inr rfl)) ?_
  rintro _ w' ⟨hh, hsame, -⟩
  rw [← hh]
  intro hw'
  rw [wp_bind, wp_modLoop, wp_bind, wp_modify, wp_bind, wp_modify]
  refine Does.after (P := (Task.remove t).May w.core) (Q := fun _ w'' => w''.hand = w'.hand ∧
    w''.core.transportList = w.core.transportList.erase t ∧ w''.core.transports t = none ∧
    (w''.core.loop.fdes (.transport t)).active = false)
      (.unlink t w.core.io.reused) hw' trivial
    ⟨rfl, rfl⟩ ?_
  cases hT : w'.core.transports t with
  | none =>
      rw [Adbd.runTransportDisconnects]
      refine .bind (Q := fun _ _ => False) (.getTransport fun T hT' => ?_) fun _ _ h => h.elim
      exact absurd (hT.symm.trans hT') (by simp)
  | some T =>
      refine .bind (Does.runTransportDisconnects (by exact hT) fun _ _ =>
        Task.may_disconnect (.inl rfl)) ?_
      rintro _ w'' ⟨hh', hT', hsame'⟩
      have hact : (w''.core.loop.fdes (.transport t)).active = false := by
        rw [hsame'.watched]
        change ((w'.core.loop.fdeventRemove (.transport t)).fdes (.transport t)).active = false
        rw [Loop.fdeventRemove_fdes_self]
      refine .last (r := ⟨⟩) (.unregister t { T with disconnects := [] })
        (fun _ => ⟨hT', rfl, hact⟩) rfl rfl ⟨hh', ?_, ?_, hact⟩
      · rw [← hsame.list]
        exact hsame'.list
      · simp [Op.effect, Core.putTransport]

/-! ### Steps -/

/-- The handler that a callback of the main loop runs. -/
def System.callbackTask (s : System) (io : Io) (k : FdeId) (ev : Events) : Task :=
  match k with
  | .registration =>
      if ev.read then
        match s.regPipe with
        | [] => .idle
        | m :: _ => if m.register then .register m.transport else .remove m.transport
      else .idle
  | .subproc => if ev.read then s.core.forcedTask io else .idle
  | .ssListener => .accept
  | .jdwp => .jdwp
  | .sock _ | .transport _ => s.core.taskOf k ev

/-- What the output thread does where it stands: it posts its `SYNC`s and the packets
`read_from_remote` yields. -/
def Life.outTask (l : Life) (t : TId) (r : Option (AMessage × List UInt8)) : Task :=
  match l.out with
  | .sync => .post t (syncMsg 1 (l.syncToken + 1)) []
  | .pump =>
      match r with
      | some (m, data) => if Accepted m data then .post t m data else .idle
      | none => .idle
  | .offline => .post t (syncMsg 0 0) []
  | .unref => .unref t
  | .kickTest | .kickLock | .kickCall | .done => .idle

/-- What the input thread does where it stands. -/
def InPc.task (t : TId) : InPc → Task
  | .reading => .pop t
  | .closeAll => .closeAll t
  | .unref => .unref t
  | .kickTest | .kickLock | .kickCall | .done => .idle

/-- The handler that a step runs. -/
def System.task (s : System) : Action → Task
  | .register _ => .idle
  | .select _ => .select
  | .dispatch io =>
      match s.core.loop.pending with
      | [] => .idle
      | k :: _ => s.callbackTask io k (s.core.loop.fdes k).events
  | .output t r _ => (s.life t).elim .idle fun l => l.outTask t r
  | .input t _ => (s.life t).elim .idle fun l => l.inp.task t

/-- The memory a step's handler starts from, with the answers of the operating system. -/
def System.start (s : System) : Action → Core
  | .dispatch io => { s.core with io := io }
  | _ => s.core

/-- A register message is about a transport that is not in use yet. -/
def System.Unregistered (s : System) : Prop :=
  ∀ m ∈ s.regPipe, m.register = true → s.core.transports m.transport = none

/-- What a step comes to, from the memory `c`: operations that satisfy `P`, and a state, an
excused fault, or nothing if the action is not possible. -/
def Performs (P : Work → Op → Prop) (c : Core) : Except Stop System → Prop
  | .ok s' => Ops P ⟨c, []⟩ ⟨s'.core, []⟩
  | .error (.fault f) => ∃ w, Ops P ⟨c, []⟩ w ∧ Excused w f
  | .error .disabled => True

namespace Performs

variable {P P' : Work → Op → Prop} {r : Except Stop System} {s : System}

/-- Operations before. -/
theorem after {c c' : Core} (h : Ops P ⟨c, []⟩ ⟨c', []⟩) (hr : Performs P c' r) :
    Performs P c r := by
  match r, hr with
  | .ok s', hr => exact h.trans hr
  | .error (.fault f), ⟨w, hr, he⟩ => exact ⟨w, h.trans hr, he⟩
  | .error .disabled, _ => trivial

/-- Weakening. -/
theorem imp {c : Core} (h : Performs P c r) (hP : ∀ x o, P x o → P' x o) :
    Performs P' c r := by
  match r, h with
  | .ok s', h => exact Ops.imp h hP
  | .error (.fault f), ⟨w, h, he⟩ => exact ⟨w, h.imp hP, he⟩
  | .error .disabled, _ => trivial

/-- A step that runs the handler `m`. -/
theorem run {m : M Unit} {c : Core} (hc : s.core = c) (hw : WF ⟨c, []⟩)
    (h : Does P ⟨c, []⟩ m fun _ w' => w'.hand = []) : Performs P c (s.run m) := by
  have hm := h hw
  rw [System.run, hc]
  cases hr : m c with
  | error f =>
      simp only [wp, hr] at hm
      exact hm
  | ok r =>
      simp only [wp, hr] at hm
      obtain ⟨H, ho, hH⟩ := hm
      obtain rfl : H = [] := hH
      exact ho

/-- A step without an effect on the memory. -/
theorem same {s' : System} (h : s'.core = c) : Performs P c (.ok s') := by
  subst h
  exact Ops.refl

end Performs

variable {s s' : System} {a : Action}

/-- The callbacks of the main loop. -/
theorem performs_callback {k : FdeId} {ev : Events} (hw : WF ⟨s.core, []⟩)
    (hreg : s.Unregistered)
    (ha : (s.core.loop.fdes k).active = true) (he : (s.core.loop.fdes k).events = {})
    (hq : ∀ x, k = .sock x → ev.write = true → ∀ b, s.core.sockets x = some b → b.queue ≠ []) :
    Performs ((s.callbackTask s.core.io k ev).May s.core) s.core (callback s k ev) := by
  cases k with
  | sock x =>
      obtain ⟨b, hs, hl⟩ := (hw.watch.sock x).1.mp ha
      exact .run rfl hw (Does.localSocketEventFunc hs hl (fun h => hq x rfl h b hs) he)
  | transport t => exact .run rfl hw (Does.transportSocketEvents rfl)
  | registration =>
      rw [callback, transportRegistrationFunc, System.callbackTask]
      split
      · cases hp : s.regPipe with
        | nil => exact ⟨_, Ops.refl, trivial⟩
        | cons m rest =>
            dsimp only
            cases hl : s.life m.transport with
            | none => exact ⟨_, Ops.refl, trivial⟩
            | some l =>
                dsimp only
                by_cases hm : m.register = true
                · rw [if_pos hm, if_pos hm]
                  have hT := hreg m (by simp [hp]) hm
                  exact .run rfl hw (Does.registerTransport hT)
                · rw [if_neg hm, if_neg hm]
                  exact .run rfl hw (Does.removeTransport.mono fun _ _ _ h => h.1)
      · exact .same rfl
  | subproc =>
      rw [callback, System.callbackTask]
      by_cases hr : ev.read = true
      · rw [if_pos hr]
        exact .run rfl hw (Does.fdeventSubprocEventFunc rfl hr)
      · rw [if_neg hr]
        refine .run rfl hw ?_
        rw [fdeventSubprocEventFunc]
        refine .get ?_
        simp only [hr]
        exact .pure rfl
  | ssListener => exact .run rfl hw Does.ssListenerEventFunc
  | jdwp => exact .run rfl hw Does.jdwpProcessEvent

/-- `transport_unref`. -/
theorem performs_transportUnref {t : TId} {l : Life} :
    Performs ((Task.unref t).May c₀) s.core (.ok (s.transportUnref t l)) := by
  rw [System.transportUnref]
  split
  · exact .same rfl
  · next l' _ =>
    simp only [Performs]
    split
    · next T _ hT => exact Ops.one (.closePipes t T) hT rfl
    · exact Ops.refl

/-- One step of `output_thread`. -/
theorem performs_outputThread {t : TId} {l : Life} {r : Option (AMessage × List UInt8)}
    {fails : Bool} (hw : WF ⟨s.core, []⟩) :
    Performs ((l.outTask t r).May c₀) s.core (outputThread s t l r fails) := by
  cases hpc : l.out with
  | sync | offline =>
      simp only [outputThread, Life.outTask, hpc]
      split
      · exact .same rfl
      · exact .run rfl hw Does.postToMain
  | pump =>
      simp only [outputThread, Life.outTask, hpc]
      cases r with
      | none => exact .same rfl
      | some r =>
          obtain ⟨m, data⟩ := r
          dsimp only
          by_cases hacc : Accepted m data
          · rw [if_pos hacc, if_pos hacc]
            split
            · exact .same rfl
            · exact .run rfl hw Does.postToMain
          · rw [if_neg hacc, if_neg hacc]
            exact .same rfl
  | kickTest | kickLock | kickCall =>
      simp only [outputThread, hpc]
      exact .same rfl
  | unref =>
      simp only [outputThread, Life.outTask, hpc]
      exact performs_transportUnref
  | done =>
      simp only [outputThread, hpc]
      trivial

/-- One step of `input_thread`. -/
theorem performs_inputThread {t : TId} {l : Life} {fails : Bool} (hw : WF ⟨s.core, []⟩) :
    Performs ((l.inp.task t).May c₀) s.core (inputThread s t l fails) := by
  cases hpc : l.inp with
  | reading =>
      simp only [inputThread, hpc]
      split
      · exact .same rfl
      · split
        · exact ⟨_, Ops.refl, trivial⟩
        · split
          · trivial
          · exact .run rfl hw Does.takeFromMain
  | closeAll =>
      simp only [inputThread, hpc]
      exact .run rfl hw ((Does.closeAllSockets (.inl rfl)).mono fun _ _ _ h => h.1)
  | kickTest | kickLock | kickCall =>
      simp only [inputThread, hpc]
      exact .same rfl
  | unref =>
      simp only [inputThread, hpc]
      exact performs_transportUnref
  | done =>
      simp only [inputThread, hpc]
      trivial

/-- The memory when the callback of the first pending record is made. -/
def Core.taken (c : Core) (io : Io) (k : FdeId) (rest : List FdeId) : Core :=
  { c with loop := (({ c.loop with pending := rest } : Loop FdeId).fdeventTake k).2, io := io }

/-- Delivering events changes the record of `k` only, and not its interest. -/
theorem Core.taken_fdes (c : Core) (io : Io) (k : FdeId) (rest : List FdeId) (j : FdeId) :
    (c.taken io k rest).loop.fdes j =
      if j = k then { c.loop.fdes k with events := {}, pending := false }
        else c.loop.fdes j := by
  by_cases hj : j = k
  · subst hj
    simp [Core.taken, Loop.fdeventTake]
  · simp [Core.taken, Loop.fdeventTake, hj, Loop.put_fdes_of_ne _ _ hj]

/-- Taking the events of the shell-exit pipe does not change what its callback will do. -/
theorem Core.taken_forcedTask (c : Core) (io : Io) (rest : List FdeId) :
    (c.taken io .subproc rest).forcedTask io = c.forcedTask io := by
  rw [Core.forcedTask, Core.forcedTask]
  cases io.subproc with
  | none => rfl
  | some k =>
      dsimp only
      rw [Core.taken_fdes]
      by_cases hk : k = .subproc
      · subst hk
        simp [Core.taskOf]
      · rw [if_neg hk]
        rfl

/-- What a callback will do was decided before its events were taken. -/
theorem System.taken_callbackTask (s : System) (io : Io) (k : FdeId) (rest : List FdeId) :
    System.callbackTask { s with core := s.core.taken io k rest } io k
      (s.core.loop.fdes k).events = s.callbackTask io k (s.core.loop.fdes k).events := by
  cases k with
  | subproc => simp only [System.callbackTask, Core.taken_forcedTask]
  | sock x => rfl
  | transport t => rfl
  | registration | ssListener | jdwp => rfl

/-- Delivering the events of the first pending record. -/
theorem ops_taken {P : Work → Op → Prop} (io : Io) {k : FdeId} {rest : List FdeId}
    (hp : c.loop.pending = k :: rest) (hio : P ⟨c, []⟩ (.io io))
    (htake : P ⟨{ c with io := io }, []⟩ (.take k)) :
    Ops P ⟨c, []⟩ ⟨c.taken io k rest, []⟩ := by
  have h₁ : Ops P ⟨c, []⟩ ⟨{ c with io := io }, []⟩ := Ops.one (.io io) trivial hio
  have h₂ : Ops P ⟨{ c with io := io }, []⟩ _ := Ops.one (.take k) ⟨rest, hp⟩ htake
  have heff : Op.effect { c with io := io } (.take k) = c.taken io k rest := by
    simp [Op.effect, Core.onLoop, Core.taken, hp]
  rw [Op.apply, heff] at h₂
  exact h₁.trans h₂

/-- A callback of the main loop. -/
theorem performs_dispatch {io : Io} (hw : WF ⟨s.core, []⟩) (hreg : s.Unregistered) :
    Performs ((s.task (.dispatch io)).May (s.start (.dispatch io))) s.core
      (step s (.dispatch io)) := by
  rw [step, System.task, Loop.fdeventPlistDequeue]
  cases hp : s.core.loop.pending with
  | nil => trivial
  | cons k rest =>
      dsimp only
      have hpend : (s.core.loop.fdes k).pending = true := (hw.watch.wf.mem k).mp (by simp [hp])
      have hact := hw.watch.wf.active k hpend
      have hops := ops_taken (P := (s.callbackTask io k (s.core.loop.fdes k).events).May
        (s.start (.dispatch io))) io hp trivial trivial
      have hfde := s.core.taken_fdes io k rest k
      rw [if_pos rfl] at hfde
      have htask := s.taken_callbackTask io k rest
      refine .after hops
        (Performs.imp (P := (s.callbackTask io k (s.core.loop.fdes k).events).May
        (s.core.taken io k rest)) ?_ fun x o ho => ho.congr rfl rfl rfl rfl fun x => ?_)
      · rw [← htask]
        refine performs_callback (s := { s with core := s.core.taken io k rest })
          (hw.ops hops) hreg
          ?_ ?_ fun x hx hwr b hb => ?_
        · rw [hfde]
          exact hact
        · rw [hfde]
        · subst hx
          obtain ⟨b', hb', hl⟩ := (hw.watch.sock x).1.mp hact
          obtain rfl : b = b' := Option.some.inj (hb.symm.trans hb')
          exact ((hw.watch.sock x).2 b hb' hl).2 hwr
      · rw [Core.taken_fdes]
        split
        · next hx => rw [← hx]; rfl
        · rfl

/-- **Every step performs operations that its handler may perform.** -/
theorem performs_step (hw : WF ⟨s.core, []⟩) (hreg : s.Unregistered) :
    Performs ((s.task a).May (s.start a)) s.core (step s a) := by
  cases a with
  | register type => exact .same rfl
  | select ready =>
      rw [step]
      split
      · next h =>
        refine Ops.one (.select ready) ⟨h.1, fun r hr => ?_⟩ rfl
        obtain ⟨ha, he, -⟩ := h.2 r hr
        exact ⟨ha, he⟩
      · trivial
  | dispatch io => exact performs_dispatch hw hreg
  | output t r fails =>
      rw [step, System.task]
      cases hl : s.life t with
      | none => trivial
      | some l =>
          dsimp only [Option.elim]
          split
          · exact performs_outputThread hw
          · trivial
  | input t fails =>
      rw [step, System.task]
      cases hl : s.life t with
      | none => trivial
      | some l =>
          dsimp only [Option.elim]
          split
          · exact performs_inputThread hw
          · trivial

/-- A step that leads to a state. -/
theorem step_ops (hw : WF ⟨s.core, []⟩) (hreg : s.Unregistered) (h : step s a = .ok s') :
    Ops ((s.task a).May (s.start a)) ⟨s.core, []⟩ ⟨s'.core, []⟩ := by
  have hs := performs_step (a := a) hw hreg
  rw [h] at hs
  exact hs

/-- A step that ends in a fault. -/
theorem step_fault (hw : WF ⟨s.core, []⟩) (hreg : s.Unregistered) {f : Fault}
    (h : step s a = .error (.fault f)) :
    ∃ w, Ops ((s.task a).May (s.start a)) ⟨s.core, []⟩ w ∧ Excused w f := by
  have hs := performs_step (a := a) hw hreg
  rw [h] at hs
  exact hs

/-! ### The call of `handle_packet` -/

/-- The memory with which `transport_socket_events` is called for `t` with `FDE_READ`: by
the main loop, or by `fdevent_subproc_event_func`. -/
inductive System.Reads (s : System) (io : Io) (t : TId) : Core → Prop
  | callback {rest : List FdeId} :
      s.core.loop.pending = .transport t :: rest →
      (s.core.loop.fdes (.transport t)).events.read = true →
      Reads s io t (s.core.taken io (.transport t) rest)
  | forced {rest : List FdeId} :
      s.core.loop.pending = .subproc :: rest →
      (s.core.loop.fdes .subproc).events.read = true →
      io.subproc = some (.transport t) → io.rcount = 0 →
      (s.core.loop.fdes (.transport t)).active = true →
      (s.core.loop.fdes (.transport t)).pending = false →
      Reads s io t (((s.core.taken io .subproc rest).forced (.transport t)).onLoop fun l =>
        l.put (.transport t) { l.fdes (.transport t) with events := {} })

/-- **The memory `c` with which a callback calls `handle_packet(p, t)`**: the packet is out
of the pipe. -/
def System.Handles (s : System) (io : Io) (t : TId) (p : APacket) (c : Core) : Prop :=
  ∃ c₁ T rest, s.Reads io t c₁ ∧ c₁.transports t = some T ∧ c₁.canRead t T = true ∧
    T.ioToMain = p :: rest ∧ c = c₁.putTransport t (some { T with ioToMain := rest })

namespace System.Reads

variable {io : Io}

/-- Reading a packet is all the callback does. -/
theorem step_eq (h : s.Reads io t c) : ∃ ev : Events, ev.read = true ∧
    step s (.dispatch io) = System.run (transportSocketEvents t ev) { s with core := c } := by
  cases h with
  | callback hp hr =>
      refine ⟨_, hr, ?_⟩
      rw [step, Loop.fdeventPlistDequeue, hp]
      rfl
  | @forced rest hp hr hs hn ha hq =>
      refine ⟨(s.core.loop.fdes (.transport t)).events.union Events.onlyRead,
        by simp [Events.union, Events.onlyRead], ?_⟩
      have hfde := s.core.taken_fdes io .subproc rest (.transport t)
      rw [if_neg (by simp)] at hfde
      have hrun : fdeventSubprocEventFunc (s.core.loop.fdes .subproc).events
          (s.core.taken io .subproc rest) =
          transportSocketEvents t
            ((s.core.loop.fdes (.transport t)).events.union Events.onlyRead)
            (((s.core.taken io .subproc rest).forced (.transport t)).onLoop fun l =>
              l.put (.transport t) { l.fdes (.transport t) with events := {} }) := by
        simp only [fdeventSubprocEventFunc, hr]
        simp only [bind, StateT.bind, get, getThe, MonadStateOf.get, StateT.get, Except.bind,
          pure, Except.pure, show (s.core.taken io .subproc rest).io = io from rfl, hs, hfde,
          ha, if_true, hn, hq]
        rfl
      rw [step, Loop.fdeventPlistDequeue, hp]
      dsimp only [callback]
      simp only [System.run]
      rw [← hrun]
      rfl

/-- How the callback's memory came about. -/
theorem ops {P : Work → Op → Prop} (h : s.Reads io t c) (hw : WF ⟨s.core, []⟩)
    (hio : ∀ w, P w (.io io)) (htake : ∀ w k, P w (.take k)) (hforce : ∀ w k, P w (.force k)) :
    Ops P ⟨s.core, []⟩ ⟨c, []⟩ := by
  cases h with
  | callback hp hr => exact ops_taken io hp (hio _) (htake _ _)
  | @forced rest hp hr hs hn ha hq =>
      have hops : Ops P _ _ := ops_taken io hp (hio _) (htake _ _)
      refine hops.trans ?_
      have hfde := s.core.taken_fdes io .subproc rest (.transport t)
      rw [if_neg (by simp)] at hfde
      have he := hw.watch.wf.events _ hq
      rw [Core.forced_clear (by rw [hfde]; exact he)]
      refine Ops.one (.force (.transport t)) ?_ (hforce _ _)
      change ((s.core.taken io .subproc rest).loop.fdes (.transport t)).active = true
      rw [hfde]
      exact ha

theorem sockets_eq (h : s.Reads io t c) : c.sockets = s.core.sockets := by
  cases h <;> rfl

theorem list_eq (h : s.Reads io t c) : c.localSocketList = s.core.localSocketList := by
  cases h <;> rfl

theorem transports_eq (h : s.Reads io t c) : c.transports = s.core.transports := by
  cases h <;> rfl

end System.Reads

namespace System.Handles

variable {io : Io} {p : APacket}

/-- The step is the call of `handle_packet`. -/
theorem step_eq (h : s.Handles io t p c) :
    step s (.dispatch io) = System.run (handlePacket p t) { s with core := c } := by
  obtain ⟨c₁, T, rest, hr, hT, ho, hq, rfl⟩ := h
  obtain ⟨ev, hev, hstep⟩ := hr.step_eq
  have hrun : transportSocketEvents t ev c₁ =
      handlePacket p t (c₁.putTransport t (some { T with ioToMain := rest })) := by
    rw [transportSocketEvents, if_pos hev, bind_ok (getTransport_eq hT)]
    simp only [hq]
    rw [bind_ok (m := MonadState.get) rfl, if_pos ho, bind_ok (modTransport_eq hT)]
  rw [hstep, System.run, System.run, hrun]

/-- `handle_packet` starts from consistent data, with the packet in its hands. -/
theorem wf (h : s.Handles io t p c) (hw : WF ⟨s.core, []⟩) : WF ⟨c, [p.addr]⟩ := by
  obtain ⟨c₁, T, rest, hr, hT, -, hq, rfl⟩ := h
  have hops : Ops (fun _ _ => True) ⟨s.core, []⟩ ⟨c₁, []⟩ :=
    hr.ops hw (fun _ => trivial) (fun _ _ => trivial) fun _ _ => trivial
  exact (hw.ops hops).op (o := .popMain t T p rest) ⟨hT, hq⟩

/-- `handle_packet` sees the sockets as they were. -/
theorem sockets_eq (h : s.Handles io t p c) : c.sockets = s.core.sockets := by
  obtain ⟨c₁, T, rest, hr, -, -, -, rfl⟩ := h
  exact hr.sockets_eq

theorem list_eq (h : s.Handles io t p c) : c.localSocketList = s.core.localSocketList := by
  obtain ⟨c₁, T, rest, hr, -, -, -, rfl⟩ := h
  exact hr.list_eq

end System.Handles

/-- The packet that the first pending callback hands to `handle_packet`, and the memory, if
it is the callback of `t`. -/
def System.packetCall (s : System) (io : Io) (t : TId) : Option (APacket × Core) :=
  match s.core.loop.pending, s.core.transports t with
  | k :: rest, some T =>
      match T.ioToMain with
      | p :: ps =>
          if k = .transport t ∧ (s.core.loop.fdes (.transport t)).events.read ∧
              s.core.canRead t T then
            some (p, (s.core.taken io (.transport t) rest).putTransport t
              (some { T with ioToMain := ps }))
          else none
      | [] => none
  | _, _ => none

theorem System.handles_of_packetCall {io : Io} {p : APacket}
    (h : s.packetCall io t = some (p, c)) :
    s.Handles io t p c := by
  rw [System.packetCall] at h
  split at h
  · next k rest T hp hT =>
    split at h
    · next p ps hq =>
      split at h
      · next hif =>
        obtain ⟨rfl, hev, ho⟩ := hif
        obtain ⟨rfl, rfl⟩ := Prod.mk.inj (Option.some.inj h)
        exact ⟨_, T, ps, .callback hp hev, hT, ho, hq, rfl⟩
      · cases h
    · cases h
  · cases h

/-- Every packet that a step handles is handled this way. -/
theorem System.exists_handles {io : Io} {p : APacket}
    (h : s.task (.dispatch io) = .packet t p) :
    ∃ c, s.Handles io t p c := by
  have hread {c : Core} {k : FdeId} {ev : Events} (hk : c.taskOf k ev = .packet t p) :
      k = .transport t ∧ ev.read = true ∧ ∃ T rest, c.transports t = some T ∧
        c.canRead t T = true ∧ T.ioToMain = p :: rest := by
    unfold Core.taskOf at hk
    split at hk
    · split at hk
      · cases hk
      · split at hk <;> cases hk
    · next t' =>
      split at hk
      · next hev =>
        cases hrec : c.received t' with
        | none => simp [hrec] at hk
        | some p' =>
            simp only [hrec, Option.elim, Task.packet.injEq] at hk
            obtain ⟨rfl, rfl⟩ := hk
            obtain ⟨T, hT, hp⟩ := Option.bind_eq_some_iff.mp hrec
            split at hp
            · next ho =>
              obtain ⟨rest, hq⟩ := List.head?_eq_some_iff.mp hp
              exact ⟨rfl, hev, T, rest, hT, ho, hq⟩
            · cases hp
      · cases hk
    · cases hk
  rw [System.task] at h
  cases hp : s.core.loop.pending with
  | nil => simp [hp] at h
  | cons k rest =>
      simp only [hp] at h
      cases k with
      | sock x =>
          obtain ⟨hk, -⟩ := hread (c := s.core) (k := .sock x) h
          cases hk
      | transport t' =>
          obtain ⟨hk, hev, T, ps, hT, ho, hq⟩ := hread (c := s.core) (k := .transport t') h
          obtain rfl := FdeId.transport.inj hk
          exact ⟨_, _, T, ps, .callback hp hev, hT, ho, hq, rfl⟩
      | registration =>
          simp only [System.callbackTask] at h
          split at h
          · split at h
            · cases h
            · split at h <;> cases h
          · cases h
      | subproc =>
          simp only [System.callbackTask] at h
          split at h
          · next hr =>
            rw [Core.forcedTask] at h
            split at h
            · next k hsub =>
              split at h
              · next hact =>
                obtain ⟨rfl, -, T, ps, hT, ho, hq⟩ := hread h
                obtain ⟨ha, hn, hpend⟩ := hact
                exact ⟨_, _, T, ps, .forced hp hr hsub hn ha hpend, hT, ho, hq, rfl⟩
              · cases h
            · cases h
          · cases h
      | ssListener | jdwp => cases h

end Adbd
