import Adbd.Incoming
import Adbd.SmartSession

/-!
# The Bytes for a Remote

What is read from the descriptor of a local socket goes to its other end in `WRTE` packets.
They are put into the pipe to the input thread of the transport, which hands them on. Here the
daemon is recorded with the packets that are put into that pipe and taken out of it, and with
those that carry what was read from a socket.

## Main definitions

* `System.ReadsSock`: how the `FDE_READ` branch of a local socket is called.
* `System.readFor`, `System.uploads`: what a step reads for the remote end of a socket, and
  sends.
* `Outbound`: the daemon, with what it read from a socket, and what it sent on a transport.

## Main results

* `wp_readEvent_sends`: what was read is sent in one packet.
* `step_upload`: what a step reads, it sends.
* `stream_upload`: the payloads sent are what was read, and the pipe keeps their order.
-/

namespace Adbd

open Program Custody

variable {c : Core} {w w' : Work} {o : Op} {x q : SockId} {a b : ASocket} {s s' : System}
  {t : TId} {T T' : ATransport} {p : APacket} {k : Task} {io : Io}

/-! ### The call of the read branch -/

/-- The memory with which the `FDE_READ` branch of `x` runs: called by the main loop, or by
`fdevent_subproc_event_func`. -/
inductive System.ReadsSock (s : System) (io : Io) (x : SockId) : Core → Prop
  | callback {rest : List FdeId} :
      s.core.loop.pending = .sock x :: rest →
      (s.core.loop.fdes (.sock x)).events.write = false →
      (s.core.loop.fdes (.sock x)).events.read = true →
      ReadsSock s io x (s.core.taken io (.sock x) rest)
  | forced {rest : List FdeId} :
      s.core.loop.pending = .subproc :: rest →
      (s.core.loop.fdes .subproc).events.read = true →
      io.subproc = some (.sock x) → io.rcount = 0 →
      (s.core.loop.fdes (.sock x)).active = true →
      (s.core.loop.fdes (.sock x)).pending = false →
      ReadsSock s io x (((s.core.taken io .subproc rest).forced (.sock x)).onLoop fun l =>
        l.put (.sock x) { l.fdes (.sock x) with events := {} })

namespace System.ReadsSock

/-- Reading is all the callback does. -/
theorem step_eq (h : s.ReadsSock io x c) (hw : WF ⟨s.core, []⟩) :
    step s (.dispatch io) = System.run (localSocketReadEvent x) { s with core := c } := by
  have hbranch (ev : Events) (hev : ev.write = false) (hr : ev.read = true) :
      localSocketEventFunc x ev = localSocketReadEvent x := by
    rw [localSocketEventFunc, hev, hr]
    rfl
  cases h with
  | callback hp hwr hr =>
      rw [← hbranch _ hwr hr, step, Loop.fdeventPlistDequeue, hp]
      rfl
  | @forced rest hp hr hs hn ha hq =>
      have he : (s.core.loop.fdes (.sock x)).events = {} := hw.watch.wf.events _ hq
      rw [← hbranch ((s.core.loop.fdes (.sock x)).events.union Events.onlyRead)
        (by simp [he, Events.union, Events.onlyRead])
          (by simp [Events.union, Events.onlyRead])]
      have hfde := s.core.taken_fdes io .subproc rest (.sock x)
      rw [if_neg (by simp)] at hfde
      have hrun : fdeventSubprocEventFunc (s.core.loop.fdes .subproc).events
          (s.core.taken io .subproc rest) =
          localSocketEventFunc x ((s.core.loop.fdes (.sock x)).events.union Events.onlyRead)
            (((s.core.taken io .subproc rest).forced (.sock x)).onLoop fun l =>
              l.put (.sock x) { l.fdes (.sock x) with events := {} }) := by
        simp only [fdeventSubprocEventFunc, hr]
        simp only [bind, StateT.bind, get, getThe, MonadStateOf.get, StateT.get, Except.bind,
          pure, Except.pure, show (s.core.taken io .subproc rest).io = io from rfl, hs, hfde,
          ha, if_true, hn, hq]
        rfl
      rw [step, Loop.fdeventPlistDequeue, hp]
      dsimp only [callback]
      simp only [System.run]
      rw [← hrun]
      rfl

theorem wf (h : s.ReadsSock io x c) (hw : WF ⟨s.core, []⟩) : WF ⟨c, []⟩ := by
  cases h with
  | callback hp hwr hr =>
      have hops : Ops (fun _ _ => True) _ _ := ops_taken io hp trivial trivial
      exact hw.ops hops
  | @forced rest hp hr hs hn ha hq =>
      have hops : Ops (fun _ _ => True) _ _ := ops_taken io hp trivial trivial
      have hfde := s.core.taken_fdes io .subproc rest (.sock x)
      rw [if_neg (by simp)] at hfde
      have he := hw.watch.wf.events _ hq
      rw [Core.forced_clear (by rw [hfde]; exact he)]
      refine (hw.ops hops).op (o := .force (.sock x)) ?_
      change ((s.core.taken io .subproc rest).loop.fdes (.sock x)).active = true
      rw [hfde]
      exact ha

theorem sockets_eq (h : s.ReadsSock io x c) : c.sockets = s.core.sockets := by
  cases h <;> rfl

theorem transports_eq (h : s.ReadsSock io x c) : c.transports = s.core.transports := by
  cases h <;> rfl

theorem io_eq (h : s.ReadsSock io x c) : c.io = io := by
  cases h <;> rfl

/-- The socket is a local one. -/
theorem sock (h : s.ReadsSock io x c) (hw : WF ⟨s.core, []⟩) :
    ∃ a, s.core.sockets x = some a ∧ a.kind.isLocal = true := by
  cases h with
  | callback hp hwr hr =>
      have hpend := (hw.watch.wf.mem (.sock x)).mp (by simp [hp])
      exact (hw.watch.sock x).1.mp (hw.watch.wf.active _ hpend)
  | forced hp hr hs hn ha hq => exact (hw.watch.sock x).1.mp ha

end System.ReadsSock

/-- Every read branch that a step runs is called this way. -/
theorem System.exists_readsSock (h : s.task (.dispatch io) = .read x) :
    ∃ c, s.ReadsSock io x c := by
  have hread {c : Core} {k : FdeId} {ev : Events} (hk : c.taskOf k ev = .read x) :
      k = .sock x ∧ ev.write = false ∧ ev.read = true := by
    unfold Core.taskOf at hk
    split at hk
    · split at hk
      · cases hk
      · next hw =>
        split at hk
        · next hr =>
          obtain rfl := Task.read.inj hk
          exact ⟨rfl, by simpa using hw, hr⟩
        · cases hk
    · next t' =>
      split at hk
      · cases hrec : c.received t' <;> simp [hrec] at hk
      · cases hk
    · cases hk
  rw [System.task] at h
  cases hp : s.core.loop.pending with
  | nil => simp [hp] at h
  | cons k rest =>
      simp only [hp] at h
      cases k with
      | sock y =>
          obtain ⟨hk, hwr, hr⟩ := hread (c := s.core) (k := .sock y) h
          obtain rfl := FdeId.sock.inj hk
          exact ⟨_, .callback hp hwr hr⟩
      | transport t' =>
          obtain ⟨hk, -⟩ := hread (c := s.core) (k := .transport t') h
          cases hk
      | registration =>
          simp only [System.callbackTask] at h
          split at h
          · split at h
            · cases h
            · split at h <;> cases h
          · cases h
      | subproc =>
          simp only [System.callbackTask] at h
          split at h
          · next hr =>
            rw [Core.forcedTask] at h
            split at h
            · next k hsub =>
              split at h
              · next hact =>
                obtain ⟨rfl, -⟩ := hread h
                obtain ⟨ha, hn, hpend⟩ := hact
                exact ⟨_, .forced hp hr hsub hn ha hpend⟩
              · cases h
            · cases h
          · cases h
      | ssListener | jdwp => cases h

/-! ### What the read branch sends -/

/-- The packet that carries `bs`. -/
abbrev uploadPacket (addr : Nat) (bs : List UInt8) (arg0 arg1 : UInt32) : APacket :=
  wrtePacket { addr := addr, data := bs, len := bs.length } arg0 arg1

/-- What an operation pushes, at the transport. -/
theorem Op.mainToIo_eq (hg : o.Guard w) (hreg : ∀ type, o ≠ .register t type)
    (hpop : ∀ T₀ p rest, o ≠ .popIo t T₀ p rest) (hT : w.core.transports t = some T)
    (hT' : (o.effect w.core).transports t = some T') :
    T'.mainToIo = T.mainToIo ++ o.pushed w.core t := by
  have hun : ∀ T₀, o ≠ .unregister t T₀ := by
    rintro T₀ rfl
    simp [Op.effect, Core.putTransport] at hT'
  rw [Op.effect_transports hg hreg hun, hT, Option.map_some] at hT'
  obtain rfl := Option.some.inj hT'
  cases o with
  | popIo t' T₀ p rest =>
      have ht : t' ≠ t := fun h => hpop T₀ p rest (by rw [h])
      simp [Op.turn, Op.pushed, ht]
  | conn t' T₀ online state quals =>
      simp only [Op.turn, Op.pushed, List.append_nil]
      split <;> rfl
  | popMain t' T₀ p rest =>
      simp only [Op.turn, Op.pushed, List.append_nil]
      split <;> rfl
  | post t' T₀ p =>
      simp only [Op.turn, Op.pushed, List.append_nil]
      split <;> rfl
  | closePipes t' T₀ =>
      simp only [Op.turn, Op.pushed, List.append_nil]
      split <;> rfl
  | _ => rfl

/-- **What a sequence of operations sends on a transport.** -/
theorem Ops.sends {P : Work → Op → Prop} {φ : APacket → Prop} (h : Ops P w w')
    (hP : ∀ v o, P v o → o.Guard v → (∀ type, o ≠ .register t type) ∧
      (∀ T₀ p rest, o ≠ .popIo t T₀ p rest) ∧ ∀ p ∈ o.pushed v.core t, φ p)
    (hT : w.core.transports t = some T) (hT' : w'.core.transports t = some T') :
    ∃ new, T'.mainToIo = T.mainToIo ++ new ∧ ∀ p ∈ new, φ p := by
  refine h.invariant (I := fun v => ∀ T₁, v.core.transports t = some T₁ →
    ∃ new, T₁.mainToIo = T.mainToIo ++ new ∧ ∀ p ∈ new, φ p) (fun T₁ hT₁ => ?_) ?_ T' hT'
  · obtain rfl := Option.some.inj (hT.symm.trans hT₁)
    exact ⟨[], by simp, by simp⟩
  intro v o hv hg hm T₂ hT₂
  obtain ⟨hreg, hpop, hpush⟩ := hP v o hm hg
  rw [Op.apply_core] at hT₂
  have hun : ∀ T₀, o ≠ .unregister t T₀ := by
    rintro T₀ rfl
    simp [Op.effect, Core.putTransport] at hT₂
  obtain ⟨T₁, hT₁, -⟩ :=
    Option.map_eq_some_iff.mp ((Op.effect_transports hg hreg hun).symm.trans hT₂)
  obtain ⟨new, hnew, hall⟩ := hv T₁ hT₁
  refine ⟨new ++ o.pushed v.core t, ?_, fun p hp => ?_⟩
  · rw [Op.mainToIo_eq hg hreg hpop hT₁ hT₂, hnew, List.append_assoc]
  · exact (List.mem_append.mp hp).elim (hall p) (hpush p)

/-- Closing a stream sends nothing but a `CLSE`. -/
theorem Op.pushed_close {d : Close} (h : p ∈ (Op.close d).pushed c t) :
    p.msg.command = A_CLSE := by
  simp only [Op.pushed] at h
  split at h
  · split at h
    · simp only [Close.clse] at h
      split at h
      · split at h
        · obtain rfl := List.mem_singleton.mp h
          rfl
        · cases h
      · cases h
    · cases h
  · cases h

/-- **What was read is sent in one packet**, behind what was sent before; a `CLSE` may
follow. -/
theorem wp_readEvent_sends (hw : WF ⟨c, []⟩) (hs : c.sockets x = some a)
    (hk : a.kind = .localSocket) (hp : a.peer = some q) (hr : RemoteOf c q b x a t T)
    (hg : c.gets ≠ []) :
    wp (localSocketReadEvent x) (fun _ c' => ∀ T', c'.transports t = some T' → ∃ rest,
      T'.mainToIo = T.mainToIo ++ uploadPacket c.nextPkt c.gets a.id b.id :: rest ∧
        ∀ p ∈ rest, p.msg.command = A_CLSE) (fun _ => True) c := by
  rw [localSocketReadEvent, wp_bind, wp_getApacket, wp_bind, wp_get]
  have hio : c.newPkt.io = c.io := rfl
  have hgets : (readLoop c.io.reads MAX_PAYLOAD []).1 = c.gets := rfl
  rw [hio]
  generalize readLoop c.io.reads MAX_PAYLOAD [] = y at hgets ⊢
  obtain ⟨got, isEof, r⟩ := y
  dsimp only at hgets ⊢
  subst hgets
  rw [wp_bind]
  refine (wp_getSock_of (by exact hs)).mpr ?_
  rw [hp, localSocketPass_some hg, wp_bind, wp_bind]
  have hwf₁ : WF ⟨c.newPkt, [c.nextPkt]⟩ := hw.op (o := .newPkt) trivial
  have hr₁ : RemoteOf c.newPkt q b x a t T :=
    ⟨hr.sock, hr.kind, hr.peer, hr.near, hr.transport, hr.live⟩
  refine wp_enqueue_remote hr₁ ?_ fun _ => trivial
  rw [if_pos (by decide), wp_bind, wp_modLoop, wp_pure]
  dsimp only
  rw [if_neg (by simp), localSocketEof, wp_bind, wp_get]
  let v : Op := .readWrte x a t T (uploadPacket c.nextPkt c.gets a.id b.id)
  have hgd : v.Guard ⟨c.newPkt, [c.nextPkt]⟩ :=
    ⟨hs, hk, hr.live, by simp, rfl, q, b, hp, hr.sock, hr.kind, hr.transport⟩
  have hwf : WF (v.apply ⟨c.newPkt, [c.nextPkt]⟩) := hwf₁.op hgd
  change wp _ _ _ (v.apply ⟨c.newPkt, [c.nextPkt]⟩).core
  have hT : (v.apply ⟨c.newPkt, [c.nextPkt]⟩).core.transports t = some { T with
      mainToIo := T.mainToIo ++ [uploadPacket c.nextPkt c.gets a.id b.id] } := by
    simp [v, Op.effect, Core.push, Core.putTransport, Core.note]
  have hsock : (v.apply ⟨c.newPkt, [c.nextPkt]⟩).core.sockets x = some a := hs
  generalize v.apply ⟨c.newPkt, [c.nextPkt]⟩ = u at hwf hT hsock ⊢
  split
  · refine wp_mono (Does.closeEnd (P := fun _ o => ∃ d, o = .close d) hsock (by rw [hk]; rfl)
      (.inl rfl) (fun _ => ⟨_, rfl⟩) hwf) ?_ fun _ _ => trivial
    rintro - c' ⟨H, hops, -⟩ T' hT'
    obtain ⟨rest, hrest, hall⟩ := hops.sends (φ := fun p => p.msg.command = A_CLSE)
      (fun v o ho _ => by
        obtain ⟨d, rfl⟩ := ho
        exact ⟨by simp, by simp, fun p hp => Op.pushed_close hp⟩) hT hT'
    exact ⟨rest, by rw [hrest]; simp, hall⟩
  · intro T' hT'
    obtain rfl := Option.some.inj (hT.symm.trans hT')
    exact ⟨[], rfl, by simp⟩

/-! ### Steps -/

/-- The other end of the stream of `x`, if that is a remote socket: the id of `x`, the
transport and the id of the remote socket. -/
def Core.route (c : Core) (x : SockId) : Option (UInt32 × TId × UInt32) :=
  (c.sockets x).bind fun a => a.peer.bind fun q => (c.sockets q).bind fun b =>
    if b.kind = .remoteSocket then b.transport.map fun t => (a.id, t, b.id) else none

theorem Core.route_eq_some {id : UInt32} {rid : UInt32} : c.route x = some (id, t, rid) ↔
    ∃ a q b, c.sockets x = some a ∧ a.peer = some q ∧ c.sockets q = some b ∧
      b.kind = .remoteSocket ∧ b.transport = some t ∧ a.id = id ∧ b.id = rid := by
  simp only [Core.route, Option.bind_eq_some_iff]
  constructor
  · rintro ⟨a, ha, q, hq, b, hb, h⟩
    split at h
    · next hk =>
      obtain ⟨t', ht', heq⟩ := Option.map_eq_some_iff.mp h
      obtain ⟨rfl, rfl, rfl⟩ : a.id = id ∧ t' = t ∧ b.id = rid := by simpa using heq
      exact ⟨a, q, b, ha, hq, hb, hk, ht', rfl, rfl⟩
    · cases h
  · rintro ⟨a, q, b, ha, hq, hb, hk, ht, rfl, rfl⟩
    exact ⟨a, ha, q, hq, b, hb, by rw [if_pos hk, ht]; rfl⟩

/-- What a step reads from `x`, whose other end is on `t`. -/
def System.readFor (s : System) (t : TId) (x : SockId) (b : Action) : List UInt8 :=
  if s.task b = .read x ∧ (s.core.route x).any (·.2.1 = t) then (s.start b).gets else []

/-- A `WRTE`, and the stream that was read when it was sent. -/
structure Upload where
  route : Option (UInt32 × TId × UInt32)
  packet : APacket

/-- The `WRTE`s that a step which reads from `x` sends on `t`. -/
def System.uploads (s : System) (t : TId) (x : SockId) (b : Action) (s' : System) :
    List Upload :=
  if s.task b = .read x then
    ((s.puts t b s').filter fun p => p.msg.command = A_WRTE).map fun p => ⟨s.core.route x, p⟩
  else []

/-- A callback that reads makes no remote sockets. -/
theorem Op.read_remote {e : Core} {y : SockId} (hm : (Task.read x).May e w o) (hg : o.Guard w)
    (hy : (o.effect w.core).sockets y = some b) (hk : b.kind = .remoteSocket) :
    w.core.sockets y = some b := by
  have hsmart {z : SockId} {d : ASocket} (hd : d.kind ≠ .remoteSocket)
      (h : (w.core.putSock z (some d)).sockets y = some b) : w.core.sockets y = some b := by
    by_cases hz : y = z
    · subst hz
      obtain rfl : d = b := by simpa [Core.putSock] using h
      exact absurd hk hd
    · simpa [Core.putSock, hz] using h
  cases o with
  | collectFirst z d p => exact hsmart (by simp [hg.2.1]) hy
  | collectMore z d p => exact hsmart (by simp [hg.2.1]) hy
  | choose z d t' => exact hsmart (by simp [hg.2]) hy
  | rig z d ss d' t' T₀ p =>
      simp only [Op.effect, Core.rig] at hy
      split at hy
      · obtain rfl := Option.some.inj hy
        cases hk
      · split at hy
        · cases hy
        · exact hy
  | close d =>
      simp only [Op.effect, Core.close] at hy
      split at hy
      · have hfate : b.kind ≠ .remoteSocket := by
          rw [Close.fate] at hy
          split at hy
          · cases hy
          · obtain rfl := Option.some.inj hy
            dsimp only
            split
            · intro h
              have hend := hg.2.1
              rw [h] at hend
              cases hend
            · decide
        exact absurd hk hfate
      · split at hy
        · cases hy
        · exact hy
  | io | pids | note | newPkt | freePkt | select | take | force | pendRead | readOff | readWrte
  | popMain | popIo | conn | post | closePipes | register | unlink | unregister => exact hy
  | lose z =>
      obtain ⟨t', z', d, p, ⟨⟨p₀, hk', -⟩, -⟩, -⟩ := hm
      cases hk'
  | deliver t' z m =>
      obtain ⟨p₀, hk', -⟩ := hm
      cases hk'
  | send t' T₀ p =>
      obtain ⟨p₀, hk', -⟩ := hm
      cases hk'
  | sendList z t' T₀ p =>
      rcases hm.1 with hk' | ⟨t₀, p₀, hk', -⟩ <;> cases hk'
  | flags z d v v' =>
      rcases hm with hk' | ⟨t₀, p₀, hk', -⟩ <;> cases hk'
  | accept fd => cases hm
  | openStream d =>
      obtain ⟨p₀, hk', -⟩ := hm
      cases hk'
  | attach z d id t' T₀ m =>
      obtain ⟨⟨p₀, hk', -⟩, -⟩ := hm
      cases hk'
  | ready z t' m =>
      obtain ⟨⟨p₀, hk', -⟩, -⟩ := hm
      cases hk'
  | wrteQueue t' z d m p | wrteBlock t' z d m p bs | wrteDone t' z d T₀ m p =>
      obtain ⟨⟨⟨p₀, hk', -⟩, -⟩, -⟩ := hm
      cases hk'
  | wrteFail t' z m p bs =>
      obtain ⟨d, ⟨⟨p₀, hk', -⟩, -⟩, -⟩ := hm
      cases hk'
  | drain z d r => cases hm
  | drainDestroy z d r l => cases hm
  | drainReady z d r far => cases hm.1

/-- A callback that reads from `x` sends no `WRTE` on `t`, unless `x` is read for a remote
socket on `t`. -/
theorem Op.read_pushed {e : Core} (hm : (Task.read x).May e w o) (hg : o.Guard w)
    (hrem : ∀ y b, w.core.sockets y = some b → b.kind = .remoteSocket → e.sockets y = some b)
    (hno : e.gets ≠ [] → ¬(e.route x).any (·.2.1 = t)) (hp : p ∈ o.pushed w.core t) :
    p.msg.command ≠ A_WRTE := by
  cases o with
  | readWrte z d t' T₀ q =>
      obtain ⟨hk, hs, hgets, -⟩ := hm
      obtain rfl := Task.read.inj hk
      obtain ⟨-, -, -, -, -, y, b, hpeer, hb, hkb, hbt⟩ := hg
      have hroute : e.route x = some (d.id, t', b.id) :=
        Core.route_eq_some.mpr ⟨d, y, b, hs, hpeer, hrem y b hb hkb, hkb, hbt, rfl, rfl⟩
      have ht : t' ≠ t := by simpa [hroute] using hno hgets
      simp [pushed, ht] at hp
  | rig z d ss d' t' T₀ f =>
      have hopen := hm.2.2.2.1
      simp only [pushed] at hp
      split at hp
      · obtain rfl := List.mem_singleton.mp hp
        rw [hopen]
        decide
      · cases hp
  | close d =>
      rw [pushed_close hp]
      decide
  | send t' T₀ q =>
      obtain ⟨p₀, hk', -⟩ := hm
      cases hk'
  | sendList z t' T₀ q =>
      rcases hm.1 with hk' | ⟨t₀, p₀, hk', -⟩ <;> cases hk'
  | openStream d =>
      obtain ⟨p₀, hk', -⟩ := hm
      cases hk'
  | wrteDone t' z d T₀ m q =>
      obtain ⟨⟨⟨p₀, hk', -⟩, -⟩, -⟩ := hm
      cases hk'
  | drainReady z d r far => cases hm.1
  | _ => cases hp

/-- Only the input thread of `t` pops, and it takes a packet or does nothing. -/
theorem System.input_of_task {b : Action} (hk : s.task b = .pop t) :
    ∃ l fails, b = .input t fails ∧ s.life t = some l ∧ l.inp = .reading := by
  cases b with
  | register | select => cases hk
  | dispatch io =>
      rw [System.task] at hk
      split at hk
      · cases hk
      · next k _ _ =>
        have hmain := s.callbackTask_ofMain io k (s.core.loop.fdes k).events
        rw [hk] at hmain
        exact hmain.elim
  | output t' r fails =>
      rw [System.task] at hk
      cases hl : s.life t' with
      | none => simp [hl] at hk
      | some l =>
          simp only [hl, Option.elim, Life.outTask] at hk
          split at hk
          · cases hk
          · split at hk
            · split at hk <;> cases hk
            · cases hk
          all_goals cases hk
  | input t' fails =>
      rw [System.task] at hk
      cases hl : s.life t' with
      | none => simp [hl] at hk
      | some l =>
          simp only [hl, Option.elim] at hk
          cases hi : l.inp with
          | reading =>
              rw [hi] at hk
              obtain rfl := Task.pop.inj hk
              exact ⟨l, fails, rfl, hl, hi⟩
          | closeAll | kickTest | kickLock | kickCall | unref | done =>
              rw [hi] at hk
              cases hk

/-- What is taken out of the pipe is popped by that thread. -/
theorem System.takes_task {b : Action} (h : s.takes t b = true) : s.task b = .pop t := by
  cases b with
  | input t' fails =>
      cases fails with
      | true => simp [System.takes] at h
      | false =>
          simp only [System.takes, Bool.and_eq_true, decide_eq_true_eq] at h
          obtain ⟨rfl, hl⟩ := h
          obtain ⟨l, hl, hi⟩ := (Option.any_eq_true _ _).mp hl
          rw [System.task, hl, Option.elim, of_decide_eq_true hi]
          rfl
  | _ => exact absurd h (by simp [System.takes])

/-- The pipe to the input thread is first in, first out. -/
theorem step_outbox {b : Action} (hr : Reachable s) (hs : step s b = .ok s')
    (hT : s.core.transports t = some T) (hT' : s'.core.transports t = some T') :
    T.mainToIo ++ s.puts t b s' = s.pops t b ++ T'.mainToIo := by
  have hout : s.outbox t = T.mainToIo ∧ s'.outbox t = T'.mainToIo := by
    simp [System.outbox, hT, hT']
  rw [System.puts, System.pops, hout.1, hout.2]
  by_cases hk : s.task b = .pop t
  · obtain ⟨l, fails, rfl, hl, hi⟩ := System.input_of_task hk
    obtain ⟨l', hl', -, hin⟩ := step_inputThread hs
    obtain rfl := Option.some.inj (hl.symm.trans hl')
    simp only [inputThread, hi] at hin
    cases fails with
    | true =>
        obtain rfl := Except.ok.inj hin
        obtain rfl : T = T' := Option.some.inj (hT.symm.trans hT')
        simp [System.takes]
    | false =>
        have htakes : s.takes t (.input t false) = true := by simp [System.takes, hl, hi]
        rw [if_pos htakes, if_pos htakes, List.append_nil]
        simp only [Bool.false_eq_true, if_false, hT] at hin
        split at hin
        · cases hin
        · next p rest hq =>
          obtain ⟨-, hT₁⟩ := run_takeFromMain (by exact hr.wf) (by exact hT) hq hin
          obtain rfl := Option.some.inj (hT₁.symm.trans hT')
          simp [hq]
  · have htakes : s.takes t b = false := Bool.eq_false_iff.mpr fun h =>
      hk (System.takes_task h)
    rw [htakes]
    have hother (v : Work) (o : Op) (ho : (s.task b).May (s.start b) v o) :
        (∀ type, o ≠ .register t type) ∧ (∀ T₀ p rest, o ≠ .popIo t T₀ p rest) ∧
          ∀ p ∈ o.pushed v.core t, True := by
      refine ⟨?_, ?_, fun _ _ => trivial⟩
      · rintro type rfl
        exact step_registered hr hs hT ho
      · rintro T₀ p rest rfl
        exact hk ho
    obtain ⟨new, hnew, -⟩ := (step_ops hr.wf hr.lives.unregistered hs).sends
      (fun v o ho _ => hother v o ho) hT hT'
    simp [hnew]

/-- What a callback that reads puts into the pipe. -/
theorem step_read {io : Io} {new : List APacket} (hT : s.core.transports t = some T)
    (hT' : s'.core.transports t = some T')
    (h : T'.mainToIo = T.mainToIo ++ new) : s.puts t (.dispatch io) s' = new := by
  simp [System.puts, System.takes, System.outbox, hT, hT', h]

/-- A step that does not read bytes for `t` sends no `WRTE` with what it read. -/
theorem step_silent {b : Action} (hr : Reachable s) (hs : step s b = .ok s')
    (h : s.readFor t x b = []) : s.uploads t x b s' = [] := by
  rw [System.uploads]
  split
  · next hk =>
    obtain ⟨io, rfl⟩ := System.dispatch_of_task (s := s) (a := b) (by rw [hk]; trivial)
    cases hT' : s'.core.transports t with
    | none => simp [System.puts, System.outbox, hT']
    | some T' =>
        cases hT : s.core.transports t with
        | none =>
            rcases task_register hr hs hT hT' with hreg | hreg <;> cases hk.symm.trans hreg
        | some T =>
            have hops := step_ops hr.wf hr.lives.unregistered hs
            rw [hk] at hops
            have hno : (s.start (.dispatch io)).gets ≠ [] →
                ¬((s.start (.dispatch io)).route x).any (·.2.1 = t) := by
              intro hg hroute
              refine hg ?_
              rw [System.readFor, if_pos ⟨hk, hroute⟩] at h
              exact h
            have hrem : Ops (fun v o => (Task.read x).May (s.start (.dispatch io)) v o ∧
                ∀ y b, v.core.sockets y = some b → b.kind = .remoteSocket →
                  s.core.sockets y = some b) _ _ :=
              hops.strengthen (I := fun v => ∀ y b, v.core.sockets y = some b →
                b.kind = .remoteSocket → s.core.sockets y = some b) (fun y b hb _ => hb)
                fun v o hv hg ho =>
                  ⟨fun y b hb hkb => hv y b (Op.read_remote ho hg hb hkb) hkb, ho, hv⟩
            have hnew (o : Op) (v : Work)
              (ho : (Task.read x).May (s.start (.dispatch io)) v o) :
                (∀ type, o ≠ .register t type) ∧ ∀ T₀ p rest, o ≠ .popIo t T₀ p rest := by
              constructor
              · rintro type rfl
                cases ho
              · rintro T₀ p rest rfl
                cases ho
            obtain ⟨new, hnew, hall⟩ := hrem.sends (φ := fun p => p.msg.command ≠ A_WRTE)
              (fun v o ho hg => ⟨(hnew o v ho.1).1, (hnew o v ho.1).2,
                fun p hp => Op.read_pushed ho.1 hg ho.2 hno hp⟩) hT hT'
            rw [step_read hT hT' hnew, List.map_eq_nil_iff, List.filter_eq_nil_iff]
            intro p hp
            simpa using hall p hp
  · rfl

/-- **A step that reads bytes sends them**, in one packet with the ids of both ends, before it
sends anything else. -/
theorem step_sends {b : Action} (hr : Reachable s) (hs : step s b = .ok s')
    (h : s.readFor t x b ≠ []) : ∃ addr id rid rest,
      s.puts t b s' = uploadPacket addr (s.readFor t x b) id rid :: rest ∧
      s.uploads t x b s' =
        [⟨some (id, t, rid), uploadPacket addr (s.readFor t x b) id rid⟩] := by
  rw [System.readFor] at h ⊢
  split at h
  · next hcond =>
    obtain ⟨hk, hroute⟩ := hcond
    rw [if_pos ⟨hk, hroute⟩]
    obtain ⟨io, rfl⟩ := System.dispatch_of_task (s := s) (a := b) (by rw [hk]; trivial)
    obtain ⟨⟨id, t', rid⟩, hto, ht⟩ := (Option.any_eq_true _ _).mp hroute
    obtain rfl : t' = t := of_decide_eq_true ht
    obtain ⟨a, q, b, hx, hp, hb, hkb, hbt, rfl, rfl⟩ := Core.route_eq_some.mp hto
    obtain ⟨c, hc⟩ := System.exists_readsSock hk
    obtain ⟨a', hx', hl⟩ := hc.sock hr.wf
    obtain rfl := Option.some.inj (hx.symm.trans hx')
    have hw := hc.wf hr.wf
    rw [← hc.sockets_eq] at hx hb
    obtain ⟨t₁, T, hrem⟩ := hw.graph.remoteOf hx hp hb hkb
    obtain rfl : t' = t₁ := Option.some.inj (hbt.symm.trans hrem.transport)
    have hgets : c.gets = (s.start (.dispatch io)).gets := by
      rw [Core.gets, hc.io_eq]
      rfl
    have hT : s.core.transports t' = some T := hc.transports_eq ▸ hrem.live
    have hlocal := hw.graph.localSocket_of_peer hx hl hp
    have hsends : ∀ T', s'.core.transports t' = some T' → ∃ rest,
        T'.mainToIo = T.mainToIo ++ uploadPacket c.nextPkt c.gets a.id b.id :: rest ∧
          ∀ p ∈ rest, p.msg.command = A_CLSE := by
      have hrun := (hc.step_eq hr.wf).symm.trans hs
      exact System.run_does (wp_readEvent_sends hw hx hlocal hp hrem (hgets ▸ h)) hrun
    obtain ⟨T', hT'⟩ : ∃ T', s'.core.transports t' = some T' := by
      refine Option.ne_none_iff_exists'.mp fun hn => ?_
      have hsame := ((step_ops hr.wf hr.lives.unregistered hs).otherTransport (t := t') (by
        rw [hk]
        exact ⟨by simp, by simp⟩)).1.mp hn
      rw [hT] at hsame
      cases hsame
    obtain ⟨rest, hrest, hclse⟩ := hsends T' hT'
    rw [hgets] at hrest
    have hputs : s.puts t' (.dispatch io) s' = _ := step_read hT hT' hrest
    refine ⟨c.nextPkt, a.id, b.id, rest, hputs, ?_⟩
    rw [System.uploads, if_pos hk, hputs, hto, List.filter_cons_of_pos (by simp),
      List.filter_eq_nil_iff.mpr fun p hp => by simp [hclse p hp, A_CLSE, A_WRTE]]
    rfl
  · exact absurd rfl h

/-- Nothing goes through the pipe of a transport that is not there, or is gone afterwards. -/
theorem step_outbox_gone {b : Action} (hr : Reachable s) (hs : step s b = .ok s')
    (hgone : s.core.transports t = none ∨ s'.core.transports t = none) :
    s.puts t b s' = [] ∧ s.pops t b = [] := by
  cases hT : s.core.transports t with
  | none =>
      have hpops : s.pops t b = [] := by simp [System.pops, System.outbox, hT]
      refine ⟨?_, hpops⟩
      rw [System.puts]
      split
      · rfl
      · cases hT' : s'.core.transports t with
        | none => simp [System.outbox, hT']
        | some T' =>
            obtain ⟨l', -, hlink, -⟩ := step_link_start hr hs hT hT'
            have hempty : T'.mainToIo = [] := congrArg Link.toIo hlink
            simp [System.outbox, hT', hempty]
  | some T =>
      have hT' : s'.core.transports t = none := hgone.resolve_left (by simp [hT])
      have htakes : s.takes t b = false := by
        have hk := step_removed hr hs hT hT'
        have hloop : (s.task b).OfLoop := by rcases hk with hk | hk <;> (rw [hk]; trivial)
        obtain ⟨io, rfl⟩ := System.dispatch_of_task hloop
        rfl
      simp [System.puts, System.pops, htakes, System.outbox, hT']

/-- The packet that carries `bs` passes the checks of its receiver. -/
theorem uploadPacket_accepted (addr : Nat) {bs : List UInt8} (arg0 arg1 : UInt32)
    (h : bs.length ≤ MAX_PAYLOAD) :
    Accepted (uploadPacket addr bs arg0 arg1).msg bs ∧
      (uploadPacket addr bs arg0 arg1).msg.dataLength.toNat = bs.length := by
  have hlen : (UInt32.ofNat bs.length).toNat = bs.length := by
    rw [UInt32.toNat_ofNat']
    exact Nat.mod_eq_of_lt (Nat.lt_of_le_of_lt h (by decide))
  refine ⟨⟨rfl, ?_, ?_, rfl⟩, hlen⟩
  · exact (Nat.le_of_eq hlen).trans h
  · exact Nat.le_of_eq hlen

/-! ### Recorded runs -/

/-- The daemon, with what it read from a socket for its remote end on a transport, the `WRTE`s
it sent meanwhile, and all packets that were put into the pipe of the transport and taken
out. -/
structure Outbound where
  system : System
  read : List UInt8
  uploads : List Upload
  put : List APacket
  popped : List APacket

namespace Outbound

variable {y y' : Outbound}

/-- The daemon when `fdevent_loop` starts. -/
def init : Outbound := ⟨System.init, [], [], [], []⟩

/-- A step of the daemon, what it reads, and what it does to the pipe. -/
def step (t : TId) (x : SockId) (y : Outbound) (b : Action) : Except Stop Outbound :=
  match Adbd.step y.system b with
  | .ok s' =>
      .ok
        { system := s'
          read := y.read ++ y.system.readFor t x b
          uploads := y.uploads ++ y.system.uploads t x b s'
          put := y.put ++ y.system.puts t b s'
          popped := y.popped ++ y.system.pops t b }
  | .error e => .error e

theorem step_ok {b : Action} (h : step t x y b = .ok y') :
    Adbd.step y.system b = .ok y'.system ∧
      y'.read = y.read ++ y.system.readFor t x b ∧
      y'.uploads = y.uploads ++ y.system.uploads t x b y'.system ∧
      y'.put = y.put ++ y.system.puts t b y'.system ∧
      y'.popped = y.popped ++ y.system.pops t b := by
  rw [step] at h
  split at h
  · next s' hs =>
    obtain rfl := Except.ok.inj h
    exact ⟨hs, rfl, rfl, rfl, rfl⟩
  · cases h

/-- A run of the daemon, recorded for the stream of `x` and the transport `t`. -/
abbrev Run (t : TId) (x : SockId) (y : Outbound) : Prop :=
  Trans.Runs (step t x) (fun _ _ => True) init y

theorem Run.reachable (h : y.Run t x) : Reachable y.system := by
  induction h with
  | refl => exact .refl
  | tail _ _ hs ih => exact .tail ih trivial (step_ok hs).1

/-- The pipe to the input thread of `t` keeps the order of its packets. -/
theorem Run.pipe (h : y.Run t x) :
    y.system.PipeLog t (·.mainToIo) y.put y.popped := by
  induction h with
  | refl => exact .init
  | tail hrun _ hs ih =>
      obtain ⟨hs, -, -, hput, hpopped⟩ := step_ok hs
      have hr := Run.reachable hrun
      rw [hput, hpopped]
      refine ih.step hr hs (fun l T hlink => ?_) (fun T T' hT hT' => step_outbox hr hs hT hT')
        fun hgone => step_outbox_gone hr hs hgone
      exact congrArg Link.toIo hlink

end Outbound

/-- A `WRTE` of the stream with the given ends that carries all of what was read. -/
structure Upload.Good (u : Upload) (t : TId) : Prop where
  command : u.packet.msg.command = A_WRTE
  route : u.route = some (u.packet.msg.arg0, t, u.packet.msg.arg1)
  length : u.packet.msg.dataLength.toNat = u.packet.data.length
  nonempty : u.packet.data ≠ []
  accepted : Accepted u.packet.msg u.packet.data

/-- What a step reads fits into a packet. -/
theorem System.readFor_length (s : System) (t : TId) (x : SockId) (b : Action) :
    (s.readFor t x b).length ≤ MAX_PAYLOAD := by
  rw [System.readFor]
  split
  · simpa [Core.gets] using readLoop_length (s.start b).io.reads MAX_PAYLOAD []
  · exact Nat.zero_le _

/-- **What a step reads, it sends.** -/
theorem step_upload {b : Action} (hr : Reachable s) (hs : step s b = .ok s') :
    (s.uploads t x b s').flatMap (·.packet.data) = s.readFor t x b ∧
      (∀ u ∈ s.uploads t x b s', u.Good t) ∧
      ((s.uploads t x b s').map (·.packet)).Sublist (s.puts t b s') := by
  refine ⟨?_, ?_, ?_⟩
  · by_cases h : s.readFor t x b = []
    · rw [step_silent hr hs h, h]
      rfl
    · obtain ⟨addr, id, rid, -, -, heq⟩ := step_sends hr hs h
      rw [heq]
      simp [wrtePacket, APacket.finish]
  · intro u hu
    by_cases h : s.readFor t x b = []
    · rw [step_silent hr hs h] at hu
      cases hu
    · obtain ⟨addr, id, rid, -, -, heq⟩ := step_sends hr hs h
      rw [heq] at hu
      obtain rfl := List.mem_singleton.mp hu
      obtain ⟨hacc, hlen⟩ := uploadPacket_accepted addr id rid (s.readFor_length t x b)
      exact ⟨rfl, rfl, hlen, h, hacc⟩
  · rw [System.uploads]
    split
    · rw [List.map_map,
        show (fun u : Upload => u.packet) ∘ (fun p => ⟨s.core.route x, p⟩) = id from
        rfl, List.map_id]
      exact List.filter_sublist
    · exact List.nil_sublist _

/-- **What is read from a socket is sent to its remote end**, in every interleaving of the
threads and the main loop. The payloads of the `WRTE`s that are sent on a transport while a
socket is read are what was read from it for that transport, with nothing lost, repeated or
reordered; each of them is addressed to the remote end it was read for, is not empty, and
passes the checks that a receiver makes. They are in the pipe to the input thread in that
order, and what the thread takes out of it is the first part of what was put in. Bytes that are
read while the other end is no remote socket of the transport do not count, and the pipe is the
transport's own. -/
theorem stream_upload {y : Outbound} (h : y.Run t x) :
    y.uploads.flatMap (·.packet.data) = y.read ∧ (∀ u ∈ y.uploads, u.Good t) ∧
      (y.uploads.map (·.packet)).Sublist y.put ∧ y.popped <+: y.put ∧
      ∀ T, y.system.core.transports t = some T → y.put = y.popped ++ T.mainToIo := by
  have hpipe := h.pipe
  refine and_assoc.mp (and_assoc.mp ⟨?_, hpipe.taken, hpipe.waiting⟩)
  clear hpipe
  induction h with
  | refl => exact ⟨⟨rfl, by simp [Outbound.init]⟩, List.Sublist.refl _⟩
  | @tail y y' b hrun _ hs ih =>
      obtain ⟨⟨hread, hgood⟩, hsub⟩ := ih
      obtain ⟨hs, hread', huploads, hput, -⟩ := Outbound.step_ok hs
      obtain ⟨hbytes, hnew, hin⟩ :=
        step_upload (t := t) (x := x) (Outbound.Run.reachable hrun) hs
      rw [hread', huploads, hput, List.flatMap_append, List.map_append, hread, hbytes]
      refine ⟨⟨rfl, fun u hu => ?_⟩, hsub.append hin⟩
      exact (List.mem_append.mp hu).elim (hgood u) (hnew u)

/-- Replaying actions shows that a recorded state is reached. -/
theorem Outbound.exists_of (t : TId) (x : SockId) (as : List Action) {P : Outbound → Bool}
    (h : (Trans.follow (Outbound.step t x) (fun _ _ => true) Outbound.init as).any P = true) :
    ∃ y : Outbound, y.Run t x ∧ P y = true :=
  Trans.exists_runs as (fun _ _ _ => trivial) h

/-- A shell prints two bytes, and the remote is sent them. -/
theorem stream_upload_shell : ∃ y : Outbound, y.Run 0 0 ∧ y.read = [72, 105] ∧
    y.uploads.flatMap (·.packet.data) = [72, 105] := by
  obtain ⟨y, hy, hP⟩ := Outbound.exists_of 0 0
    (connect 0 .usb ++ openShell 0 5 7 ++
      event (.sock 0) Events.onlyRead { reads := [.data [72, 105], .eagain] })
    (P := fun y => y.read == [72, 105]) (by decide +kernel)
  have hread : y.read = [72, 105] := by simpa using hP
  exact ⟨y, hy, hread, (stream_upload hy).1.trans hread⟩

end Adbd
