import Adbd.Lifecycle

/-!
# One Stream at a Time

An operation concerns at most one local socket, `Op.sock`, and its peer. Every other socket
keeps its record, what it is watched for, and what was noted about it: this is the frame
rule on which every result about a single stream rests. Applied to the packets of a remote
it says which streams a packet can change.

## Main definitions

* `Op.sock`: the socket an operation is about.
* `Core.Untouched c c' x`: nothing of the socket `x` differs.

## Main results

* `Op.untouched`, `Op.untouched_end`: the frame rule.
* `packet_isolation`: `OKAY`, `WRTE` and `CLSE` change no stream but the one whose local end
  `find_local_socket` returns.
-/

namespace Adbd

open Program Custody

variable {c c' c'' : Core} {w w' : Work} {o : Op} {x y : SockId} {a : ASocket}

/-! ### Nothing of a socket differs -/

/-- The observations about a socket, newest first. -/
def Core.about (c : Core) (x : SockId) : List Obs := c.log.filter fun o => o.subject = some x

/-- Nothing of the socket `x` differs: its record, what it is watched for, and what was
noted about it. -/
structure Core.Untouched (c c' : Core) (x : SockId) : Prop where
  sock : c'.sockets x = c.sockets x
  interest : (c'.loop.fdes (.sock x)).interest = (c.loop.fdes (.sock x)).interest
  about : c'.about x = c.about x

namespace Core.Untouched

theorem refl (c : Core) (x : SockId) : c.Untouched c x := ⟨rfl, rfl, rfl⟩

theorem trans (h : c.Untouched c' x) (h' : c'.Untouched c'' x) : c.Untouched c'' x :=
  ⟨h'.sock.trans h.sock, h'.interest.trans h.interest, h'.about.trans h.about⟩

/-- A change of other data. -/
theorem same {d : Core} (h : c.Untouched c' x) (hs : d.sockets = c'.sockets)
    (hl : d.loop = c'.loop) (hlog : d.log = c'.log) : c.Untouched d x :=
  h.trans ⟨by rw [hs], by rw [hl], by rw [Core.about, Core.about, hlog]⟩

/-- A change of the event loop that keeps the interest of `x`. -/
theorem onLoop {f : Loop FdeId → Loop FdeId} (h : c.Untouched c' x)
    (hf : ((f c'.loop).fdes (.sock x)).interest = (c'.loop.fdes (.sock x)).interest) :
    c.Untouched (c'.onLoop f) x :=
  h.trans ⟨rfl, hf, rfl⟩

/-- Something is noted that is not about `x`. -/
theorem note {o : Obs} (h : c.Untouched c' x) (ho : o.subject ≠ some x) :
    c.Untouched (c'.note o) x :=
  h.trans ⟨rfl, rfl, by simp [Core.about, Core.note, ho]⟩

/-- Another socket is overwritten. -/
theorem putSock {b : Option ASocket} (h : c.Untouched c' x) (hy : y ≠ x) :
    c.Untouched (c'.putSock y b) x :=
  h.trans ⟨by simp [Core.putSock, Ne.symm hy], rfl, rfl⟩

/-- The payload of a packet is put on the queue of another socket. -/
theorem link {b : ASocket} {p : APacket} (h : c.Untouched c' x) (hy : y ≠ x) :
    c.Untouched (c'.link y b p) x :=
  (h.putSock hy).onLoop (by rw [Loop.fdeventAdd_fdes_of_ne _ _ (by simpa using Ne.symm hy)])

/-- The queue of another socket is written out. -/
theorem drained {b : ASocket} {d : Drained} (h : c.Untouched c' x) (hy : y ≠ x) :
    c.Untouched (c'.drained y b d) x := by
  refine h.trans ⟨by simp [Core.drained, Core.freePkts, Core.putSock, Ne.symm hy], rfl, ?_⟩
  simp [Core.about, Core.drained, Core.freePkts, Core.putSock, Obs.subject, hy]

/-- A packet is sent for another socket, or for none. -/
theorem sendNew {t : TId} {T : ATransport} {r : Option SockId} {f : Nat → APacket}
    (h : c.Untouched c' x) (hr : r ≠ some x) : c.Untouched (c'.sendNew t T r f) x :=
  (h.same (d := c'.newPkt.push t T (f c'.nextPkt)) rfl rfl rfl).note hr

/-- Another stream is closed. -/
theorem close {d : Close} (h : c.Untouched c' x) (hs : d.sock ≠ x)
    (hf : d.far.map (·.1) ≠ some x) (hq : Quiet d.notes) : c.Untouched (c'.close d) x := by
  refine h.trans ⟨by simp [Core.close, Ne.symm hs, hf], ?_, ?_⟩
  · change ((d.loop c'.loop).fdes (.sock x)).interest = _
    rw [d.loop_fdes c'.loop (by simpa using Ne.symm hs)]
  · change (d.notes ++ c'.log).filter _ = _
    rw [List.filter_append, List.filter_eq_nil_iff.mpr fun o ho => by simp [hq o ho],
      List.nil_append]
    rfl

end Core.Untouched

/-! ### The frame rule -/

/-- The socket an operation is about. -/
def Op.sock : Op → Option SockId
  | .deliver _ s _ | .sendList s _ _ _ | .flags s _ _ _ | .collectFirst s _ _
  | .collectMore s _ _ | .choose s _ _ | .rig s _ _ _ _ _ _ | .readOff s | .attach s _ _ _ _ _
  | .ready s _ _ | .wrteQueue _ s _ _ _ | .wrteBlock _ s _ _ _ _ | .wrteFail _ s _ _ _
  | .wrteDone _ s _ _ _ _ | .drain s _ _ | .drainDestroy s _ _ _ | .drainReady s _ _ _
  | .readWrte s _ _ _ _ => some s
  | .close d => some d.sock
  | _ => none

/-- The operations that make new sockets. -/
def Op.Allocates : Op → Prop
  | .accept _ | .openStream _ | .attach .. => True
  | _ => False

/-- **The frame rule**: an operation about another socket, which is not the peer either,
leaves `x` alone. -/
theorem Op.untouched (hgr : Graph w.core) (hg : o.Guard w)
    (hfresh : o.Allocates → x < w.core.nextSock)
    (hne : ∀ y, o.sock = some y → y ≠ x ∧ ∀ a, w.core.sockets x = some a → a.peer ≠ some y) :
    w.core.Untouched (o.effect w.core) x := by
  have hnew (ha : o.Allocates) : w.core.nextSock ≠ x ∧ w.core.nextSock + 1 ≠ x :=
    ⟨Nat.ne_of_gt (hfresh ha), Nat.ne_of_gt (Nat.lt_succ_of_lt (hfresh ha))⟩
  have hadd (y : SockId) (hy : y ≠ x) (ev : Events) (l : Loop FdeId) :
      (l.fdeventAdd (.sock y) ev).fdes (.sock x) = l.fdes (.sock x) :=
    l.fdeventAdd_fdes_of_ne ev (by simpa using Ne.symm hy)
  have hdel (y : SockId) (hy : y ≠ x) (ev : Events) (l : Loop FdeId) :
      (l.fdeventDel (.sock y) ev).fdes (.sock x) = l.fdes (.sock x) :=
    l.fdeventDel_fdes_of_ne ev (by simpa using Ne.symm hy)
  have hr := Core.Untouched.refl w.core x
  have hsome (y : SockId) (hy : o.sock = some y) : some y ≠ some x := by
    simpa using (hne y hy).1
  cases o with (dsimp only [Op.effect]; dsimp only [Op.sock] at hne)
  | io | pids | newPkt | freePkt | lose | conn | popMain | popIo | post | closePipes
  | unregister => exact hr.same rfl rfl rfl
  | note o => exact hr.note (by rw [show o.subject = none from hg]; simp)
  | select rs => exact hr.onLoop (by rw [(w.core.loop.fdeventProcess_fdes rs _).2.1])
  | take k | force k | pendRead k =>
      refine hr.onLoop ?_
      by_cases hk : k = .sock x
      · subst hk
        simp [Loop.fdeventTake]
      · simp [Loop.fdeventTake, Loop.put_fdes_of_ne _ _ (Ne.symm hk)]
  | send t T p =>
      exact (hr.same (d := w.core.push t T p) rfl rfl rfl).note (by simp [Obs.subject])
  | flags s b | collectFirst s b | collectMore s b | choose s b =>
      exact hr.putSock (hne s rfl).1
  | accept fd =>
      have hnew := hnew trivial
      refine ⟨by simp [Core.accept, Ne.symm hnew.1, Ne.symm hnew.2], ?_, rfl⟩
      simp only [Core.accept]
      rw [hadd _ hnew.1, Loop.fdeventInstall_fdes_of_ne _ _ (by simpa using Ne.symm hnew.1)]
  | rig s a' ss b t T p =>
      obtain ⟨hs, hpe, hss, -, hpb, -⟩ := hg
      have hss' : ss ≠ x := by
        rintro rfl
        exact (hne s rfl).2 b hss hpb
      refine ⟨by simp [Core.rig, Ne.symm (hne s rfl).1, Ne.symm hss'], rfl, ?_⟩
      simp [Core.about, Core.rig, Obs.subject]
  | openStream d =>
      have hnew := hnew trivial
      refine ⟨by simp [Core.openStream, Ne.symm hnew.1, Ne.symm hnew.2], ?_, ?_⟩
      · simp only [Core.openStream]
        split
        · rw [hadd _ hnew.1,
            Loop.fdeventInstall_fdes_of_ne _ _ (by simpa using Ne.symm hnew.1)]
        · rfl
      · simp [Core.about, Core.openStream, Obs.subject, hnew.1]
  | attach s a' id t T m =>
      have hs := (hne s rfl).1
      have hnew := hnew trivial
      refine ⟨by simp [Core.attach, Ne.symm hs, Ne.symm hnew.1], ?_, ?_⟩
      · simp only [Core.attach]
        rw [hadd s hs]
      · simp only [Core.about, Core.attach]
        split <;> simp [Obs.subject, hs]
  | close d =>
      obtain ⟨hd, -, hpe, hq, hfar⟩ := hg
      refine hr.close (hne d.sock rfl).1 (fun hf => ?_) hq
      rw [hf] at hpe
      obtain ⟨b, hb, hback, -⟩ := hgr.peer hd hpe
      exact (hne d.sock rfl).2 b hb hback
  | register t type =>
      refine ⟨rfl, ?_, rfl⟩
      simp only [Core.onLoop]
      rw [Loop.fdeventSet_fdes_of_ne _ _ (by simp),
        Loop.fdeventInstall_fdes_of_ne _ _ (by simp)]
      rfl
  | unlink t =>
      refine ⟨rfl, ?_, rfl⟩
      simp only [Core.onLoop]
      rw [Loop.fdeventRemove_fdes_of_ne _ (by simp)]
  -- the rest notes, links or drains, all for the socket it is about
  | deliver t s m => exact hr.note (hsome s rfl)
  | readOff s => exact hr.onLoop (by rw [hdel s (hne s rfl).1])
  | sendList s t T p =>
      exact (hr.same (d := w.core.push t T p) rfl rfl rfl).note (hsome s rfl)
  | ready s t m =>
      refine .onLoop (.note hr ?_) (by rw [hadd s (hne s rfl).1])
      exact hsome s rfl
  | wrteQueue t s a' m p =>
      refine .link ((hr.note ?_).note ?_) (hne s rfl).1
      all_goals exact hsome s rfl
  | wrteBlock t s a' m p bs =>
      refine .link (((hr.note ?_).note ?_).note ?_) (hne s rfl).1
      all_goals exact hsome s rfl
  | wrteFail t s m p bs =>
      refine .note (((hr.note ?_).note ?_).note ?_) ?_
      all_goals exact hsome s rfl
  | wrteDone t s a' T m p =>
      refine .sendNew (.same ((((hr.note ?_).note ?_).note ?_).note ?_) rfl rfl rfl)
        (hsome s rfl)
      all_goals exact hsome s rfl
  | drain s a' d =>
      cases d.verdict with
      | failed => exact (hr.drained (hne s rfl).1).note (hsome s rfl)
      | wouldBlock | drained => exact hr.drained (hne s rfl).1
  | drainDestroy s a' d notes =>
      exact (hr.drained (hne s rfl).1).close (hne s rfl).1 (by simp) hg.2.2.2.2.2
  | drainReady s a' d far =>
      have h₁ := (hr.drained (b := a') (d := d) (hne s rfl).1).onLoop
        (f := (·.fdeventDel (.sock s) Events.onlyWrite)) (by rw [hdel s (hne s rfl).1])
      cases far with
      | none => exact h₁
      | some f => exact h₁.sendNew (hsome s rfl)
  | readWrte s a' t T p =>
      refine .onLoop ((hr.same (d := w.core.push t T p) rfl rfl rfl).note ?_)
        (by rw [hdel s (hne s rfl).1])
      exact hsome s rfl

/-- The socket an operation is about is an end of a stream, or a smart socket that collects
a request. -/
theorem Op.sock_kind (hgr : Graph w.core) (hg : o.Guard w) (hy : o.sock = some y) :
    ∃ b, w.core.sockets y = some b ∧ (b.kind.isEnd = true ∨ b.kind = .smartSocket ∧
      ∃ b', o.effect w.core = w.core.putSock y b') := by
  have hlocal {b : ASocket} (hs : w.core.sockets y = some b) (hk : b.kind.isLocal = true) :
      ∃ b, w.core.sockets y = some b ∧ (b.kind.isEnd = true ∨ b.kind = .smartSocket ∧
        ∃ b', o.effect w.core = w.core.putSock y b') := by
    refine ⟨b, hs, .inl ?_⟩
    revert hk
    cases b.kind <;> simp [SockKind.isLocal, SockKind.isEnd]
  have hjdwp {b : ASocket} (hs : w.core.sockets y = some b) (hk : b.kind.isJdwp = true) :
      ∃ b, w.core.sockets y = some b ∧ (b.kind.isEnd = true ∨ b.kind = .smartSocket ∧
        ∃ b', o.effect w.core = w.core.putSock y b') :=
    ⟨b, hs, .inl (SockKind.isEnd_of_isJdwp hk)⟩
  cases o with (dsimp only [Op.sock] at hy; cases hy)
  | deliver t s m =>
      obtain ⟨b, hs, hk, -⟩ := hg
      exact ⟨b, hs, .inl hk⟩
  | sendList s t T p =>
      obtain ⟨-, -, ⟨b, hs, hk⟩, -⟩ := hg
      exact hjdwp hs hk
  | flags s b => exact hjdwp hg.1 hg.2
  | collectFirst s b | collectMore s b => exact ⟨b, hg.1, .inr ⟨hg.2.1, _, rfl⟩⟩
  | choose s b => exact ⟨b, hg.1, .inr ⟨hg.2, _, rfl⟩⟩
  | rig s b ss b' =>
      obtain ⟨hs, hp, hb, hk, -⟩ := hg
      obtain ⟨b'', hb'', -, hf⟩ := hgr.peer hs hp
      obtain rfl : b' = b'' := Option.some.inj (hb.symm.trans hb'')
      refine hlocal hs ?_
      revert hf
      rw [hk]
      cases b.kind <;> simp [SockKind.Faces, SockKind.isLocal, SockKind.isEnd]
  | readOff s =>
      obtain ⟨b, hs, hk⟩ := hg
      exact hlocal hs (by simp [hk, SockKind.isLocal])
  | ready s =>
      obtain ⟨b, hs, hk, -⟩ := hg
      exact hlocal hs (by simp [hk, SockKind.isLocal])
  | wrteFail t s m p bs =>
      obtain ⟨b, hs, hk, -⟩ := hg
      exact hlocal hs hk
  | attach s b | wrteQueue t s b | wrteBlock t s b | wrteDone t s b | drain s b
  | drainDestroy s b => exact hlocal hg.1 hg.2.1
  | drainReady s b | readWrte s b => exact hlocal hg.1 (by simp [hg.2.1, SockKind.isLocal])
  | close d => exact ⟨d.self, hg.1, .inl hg.2.1⟩

/-- The frame rule for the end of a stream: an operation about another socket leaves it
alone. -/
theorem Op.untouched_end (hgr : Graph w.core) (hg : o.Guard w) (hx : w.core.sockets x = some a)
    (he : a.kind.isEnd = true) (hne : o.sock ≠ some x) :
    w.core.Untouched (o.effect w.core) x := by
  by_cases hp : ∃ y, o.sock = some y ∧ a.peer = some y
  · obtain ⟨y, hy, hpe⟩ := hp
    obtain ⟨b, hb, hk⟩ := o.sock_kind hgr hg hy
    obtain ⟨b', hb', -, hf⟩ := hgr.peer hx hpe
    obtain rfl : b = b' := Option.some.inj (hb.symm.trans hb')
    rcases hk with hk | ⟨-, z, hz⟩
    · revert hf hk he
      cases a.kind <;> cases b.kind <;> simp [SockKind.Faces, SockKind.isEnd]
    · rw [hz]
      exact (Core.Untouched.refl _ _).putSock fun h => hne (h ▸ hy)
  · refine o.untouched hgr hg (fun _ => hgr.fresh hx) fun y hy =>
      ⟨fun h => hne (h ▸ hy), fun b hb hpe => ?_⟩
    obtain rfl : a = b := Option.some.inj (hx.symm.trans hb)
    exact hp ⟨y, hy, hpe⟩

/-- The frame rule for an address at which no socket lives: every operation that does not
allocate there leaves it alone. -/
theorem Op.untouched_dead (hgr : Graph w.core) (hg : o.Guard w) (hx : w.core.sockets x = none)
    (hfresh : o.Allocates → x < w.core.nextSock) : w.core.Untouched (o.effect w.core) x := by
  refine o.untouched hgr hg hfresh fun y hy => ⟨?_, by simp [hx]⟩
  obtain ⟨b, hb, -⟩ := o.sock_kind hgr hg hy
  rintro rfl
  simp [hx] at hb

/-- Addresses of sockets are never reused. -/
theorem Op.nextSock_le (c : Core) (o : Op) : c.nextSock ≤ (o.effect c).nextSock := by
  cases o with
  | accept | openStream => exact Nat.le_add_right _ 2
  | attach => exact Nat.le_add_right _ 1
  | drain => exact Nat.le_of_eq Op.drain_nextSock.symm
  | drainReady => exact Nat.le_of_eq Op.drainReady_nextSock.symm
  | wrteDone => exact Nat.le_of_eq Op.wrteDone_nextSock.symm
  | _ => exact Nat.le_refl _

/-- The frame rule for sequences of operations. -/
theorem Ops.untouched {P : Work → Op → Prop} (h : Ops P w w') (hw : WF w)
    (hx : w.core.sockets x = some a)
    (hP : ∀ v o y, P v o → o.sock = some y → y ≠ x ∧ a.peer ≠ some y) :
    w.core.Untouched w'.core x := by
  refine (h.invariant (I := fun v => WF v ∧ w.core.Untouched v.core x) ⟨hw, .refl _ _⟩ ?_).2
  rintro v o ⟨hv, hu⟩ hg hmay
  have hxv := hu.sock.trans hx
  refine ⟨hv.op hg,
    hu.trans (o.untouched hv.graph hg (fun _ => hv.graph.fresh hxv) fun y hy => ?_)⟩
  refine ⟨(hP v o y hmay hy).1, fun b hb => ?_⟩
  obtain rfl : a = b := Option.some.inj (hxv.symm.trans hb)
  exact (hP v o y hmay hy).2

/-! ### Packets of the remote -/

/-- The packets that are about one stream. -/
def AMessage.OfStream (m : AMessage) : Prop :=
  m.command = A_OKAY ∨ m.command = A_WRTE ∨ m.command = A_CLSE

/-- Such a packet is about the socket `find_local_socket` returns. -/
theorem Task.May.found {e : Core} {t : TId} {p : APacket} (hc : p.msg.OfStream)
    (h : (Task.packet t p).May e w o) (hy : o.sock = some y) : e.find p.msg.arg1 = some y := by
  have hgets {t' : TId} {s : SockId} {m : AMessage} (hg : (Task.packet t p).Gets e t' s m) :
      e.find p.msg.arg1 = some s := by
    obtain ⟨p', hp, rfl, hf⟩ := hg
    obtain ⟨-, rfl⟩ := Task.packet.inj hp
    exact hf
  have hserves {s : SockId} (hg : (Task.packet t p).Serves e s) :
      e.find p.msg.arg1 = some s := by
    obtain hk | ⟨t', p', hp, hcmd⟩ := hg
    · cases hk
    obtain ⟨-, rfl⟩ := Task.packet.inj hp
    rcases hcmd with hcmd | ⟨-, hf⟩
    · rcases hc with h | h | h <;> exact absurd (hcmd.symm.trans h) (by decide)
    · exact hf
  cases o with (dsimp only [Op.sock] at hy; cases hy)
  | deliver t s m => exact hgets h
  | sendList s t T p => exact hserves h.1
  | flags s b => exact hserves h
  | collectFirst s b | collectMore s b | choose s b =>
      obtain ⟨_, _, hk, -⟩ := h
      cases hk
  | rig | readWrte | drainReady => cases h.1
  | readOff | drain | drainDestroy => cases h
  | attach s b id t T m | ready s t m => exact hgets h.1
  | wrteQueue t s b m p | wrteBlock t s b m p bs | wrteDone t s b T m p => exact hgets h.1.1
  | wrteFail t s m p bs =>
      obtain ⟨_, ht, -⟩ := h
      exact hgets ht.1
  | close d =>
      dsimp only [Task.May, Task.Closes] at h
      cases hd : d.how with
      | call =>
          rw [hd] at h
          obtain ⟨_, _, hg, -⟩ | ⟨-, hk | ⟨_, _, hg, -⟩⟩ := h
          · exact hgets hg
          · cases hk
          · exact hgets hg
      | eof =>
          rw [hd] at h
          cases h.1
      | locked =>
          rw [hd] at h
          obtain ⟨-, _, hk | hk, -⟩ := h <;> cases hk
      | fromPeer =>
          rw [hd] at h
          obtain ⟨-, ⟨hk, -⟩ | ⟨-, t', p', hp, -, hf⟩⟩ := h
          · cases hk
          · obtain ⟨-, rfl⟩ := Task.packet.inj hp
            exact hf
      | disconnect =>
          rw [hd] at h
          obtain ⟨t', _, _, -, -, hk | ⟨p', hp, hcmd⟩⟩ := h
          · cases hk
          · obtain ⟨-, rfl⟩ := Task.packet.inj hp
            rcases hc with h | h | h <;> rcases hcmd with hcmd | ⟨hcmd, -⟩ <;>
              exact absurd (hcmd.symm.trans h) (by decide)

variable {s s' : System} {io : Io} {t : TId} {p : APacket}

/-- **Isolation of streams.** An `OKAY`, `WRTE` or `CLSE` packet changes no local socket but
the one `find_local_socket` returns for its `arg1`: every other one keeps its record, that
is its peer, its queue and its closing flag, what it is watched for, and its peer's
record. -/
theorem packet_isolation (hs : Reachable s) (h : step s (.dispatch io) = .ok s')
    (hk : s.task (.dispatch io) = .packet t p) (hc : p.msg.OfStream)
    (hx : s.core.sockets x = some a) (he : a.kind.isEnd = true)
    (hne : s.core.find p.msg.arg1 ≠ some x) :
    s'.core.sockets x = some a ∧
    (s'.core.loop.fdes (.sock x)).interest = (s.core.loop.fdes (.sock x)).interest ∧
    ∀ q, a.peer = some q → s'.core.sockets q = s.core.sockets q := by
  have hops := step_ops hs.wf hs.lives.unregistered h
  rw [hk] at hops
  have hfound {v : Work} {o : Op} {y : SockId}
      (hmay : (Task.packet t p).May (s.start (.dispatch io)) v o) (hy : o.sock = some y) :
      s.core.find p.msg.arg1 = some y :=
    Task.May.found (e := s.start (.dispatch io)) hc hmay hy
  -- what find_local_socket returns is an end of a stream, so it is not the peer of one
  have hend {y : SockId} (hf : s.core.find p.msg.arg1 = some y) :
      ∃ b, s.core.sockets y = some b ∧ b.kind.isEnd = true := by
    obtain ⟨b, hb, hk, -⟩ := (hs.wf.graph.mem_list y).mp (List.mem_of_find?_eq_some hf)
    exact ⟨b, hb, hk⟩
  have hpeer {q : SockId} (hq : a.peer = some q) : s.core.find p.msg.arg1 ≠ some q := by
    intro hf
    obtain ⟨b, hb, hkb⟩ := hend hf
    obtain ⟨b', hb', -, hface⟩ := hs.wf.graph.peer hx hq
    obtain rfl : b = b' := Option.some.inj (hb.symm.trans hb')
    cases hka : a.kind <;> cases hkb' : b.kind <;>
      simp [hka, hkb', SockKind.Faces, SockKind.isEnd] at he hkb hface
  have hux := hops.untouched hs.wf hx fun v o y hmay hy => by
    have hf := hfound hmay hy
    exact ⟨fun hyx => hne (hyx ▸ hf), fun hq => hpeer hq hf⟩
  refine ⟨hux.sock.trans hx, hux.interest, fun q hq => ?_⟩
  obtain ⟨b, hb, hback, -⟩ := hs.wf.graph.peer hx hq
  refine (hops.untouched hs.wf hb fun v o y hmay hy => ?_).sock
  have hf := hfound hmay hy
  refine ⟨fun hyq => hpeer hq (hyq ▸ hf), fun hback' => hne ?_⟩
  obtain rfl : x = y := Option.some.inj (hback.symm.trans hback')
  exact hf

/-- Of two shells on one transport, a `CLSE` for the first closes it and leaves the second
alone. -/
theorem packet_isolation_two_shells : ∃ s s' a, Reachable s ∧ step s (.dispatch {}) = .ok s' ∧
    s.core.find 1 = some 0 ∧ s'.core.sockets 0 = none ∧ s.core.sockets 2 = some a ∧
    s'.core.sockets 2 = some a := by
  let p : APacket := { addr := 7, msg := wireMsg A_CLSE 5 1 [] }
  let a : ASocket := { kind := .localSocket, id := 2, peer := some 3, fd := 8, writeFd := 8 }
  obtain ⟨s, hs, hP⟩ := exists_reachable
    (connect 0 .usb ++ openShell 0 5 7 ++ openShell 0 6 8 ++
      [.output 0 (some (p.msg, [])) false, .select [(.transport 0, Events.onlyRead)]])
    (P := fun s => s.task (.dispatch {}) = .packet 0 p ∧ s.core.sockets 2 = some a ∧
      s.core.find 1 = some 0 ∧ s.leads (.dispatch {}) fun s' => s'.core.sockets 0 = none)
    (by decide +kernel)
  obtain ⟨hk, ha, hf, hl⟩ := of_decide_eq_true hP
  obtain ⟨s', hs', hgone⟩ := s.exists_step hl
  have hiso := packet_isolation hs hs' hk (.inr (.inr rfl)) ha rfl (by
    change s.core.find 1 ≠ some 2
    simp [hf])
  exact ⟨s, s', a, hs, hs', hf, of_decide_eq_true hgone, ha, hiso.1⟩

/-- The lookup is by the local id alone: a `CLSE` of one transport, with a remote id that no
stream has, closes a stream of another. -/
theorem packet_isolation_not_by_transport : ∃ s s' x a q b t p, Reachable s ∧
    step s (.dispatch {}) = .ok s' ∧ s.task (.dispatch {}) = .packet t p ∧
    p.msg.command = A_CLSE ∧ p.msg.arg1 = a.id ∧ s.core.sockets x = some a ∧
    a.kind = .localSocket ∧ a.peer = some q ∧ s.core.sockets q = some b ∧
    b.kind = .remoteSocket ∧ b.transport ≠ some t ∧ b.id ≠ p.msg.arg0 ∧
    s'.core.sockets x = none := by
  let p : APacket := { addr := 8, msg := wireMsg A_CLSE 9 1 [] }
  let a : ASocket := { kind := .localSocket, id := 1, peer := some 1, fd := 7, writeFd := 7 }
  let b : ASocket := { kind := .remoteSocket, id := 5, peer := some 0, transport := some 0 }
  obtain ⟨s, hs, hP⟩ := exists_reachable
    (connect 0 .usb ++ connect 1 .usb ++ openShell 0 5 7 ++
      [.output 1 (some (p.msg, [])) false, .select [(.transport 1, Events.onlyRead)]])
    (P := fun s => s.task (.dispatch {}) = .packet 1 p ∧ s.core.sockets 0 = some a ∧
      s.core.sockets 1 = some b ∧ s.leads (.dispatch {}) fun s' => s'.core.sockets 0 = none)
    (by decide +kernel)
  obtain ⟨hk, ha, hb, hl⟩ := of_decide_eq_true hP
  obtain ⟨s', hs', hgone⟩ := s.exists_step hl
  exact ⟨s, s', 0, a, 1, b, 1, p, hs, hs', hk, rfl, rfl, ha, rfl, rfl, hb, rfl, by decide,
    by decide, of_decide_eq_true hgone⟩

end Adbd
