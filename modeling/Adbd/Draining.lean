import Adbd.Streams

/-!
# What Becomes of a Closing Socket

A local socket that is closed with unwritten data goes to `local_socket_closing_list` and
is to be destroyed when its queue is written out, or when a write fails. Its record stays
in the event loop, and only `fdevent_del(FDE_READ)` keeps the `FDE_READ` branch of its
callback away. That does not take back an event that is already pending: `fdevent_set`
clears from the pending events those it is given, so a read that `select` reported in the
same round, or that `fdevent_subproc_event_func` forces, still reaches the callback, which
closes the socket for good at the end of file.

Here this is shown to be the only way to lose data: unless such a read meets the end of
file or an error, a closing socket is destroyed only after its last byte was written, or
after a write failed.

## Main definitions

* `Core.written`: the bytes `adb_write` took for a socket.
* `Drains`: what a closing socket has come to since it was closed.
* `SparesClosing`: a step does not make a closing socket meet the end of file.

## Main results

* `Task.May.drains`: what an operation does to a closing socket.
* `closing_socket_drains`: over whole runs.
-/

namespace Adbd

open Program Custody

variable {c c' e : Core} {w w' : Work} {o : Op} {x : SockId} {a : ASocket} {q : List APacket}

/-! ### What was written -/

/-- The bytes an observation says `adb_write` took. -/
def Obs.bytes : Obs → Option (List UInt8)
  | .wrote _ bs => some bs
  | _ => none

/-- The bytes `adb_write` took for the socket `x`, in order. -/
def Core.written (c : Core) (x : SockId) : List UInt8 :=
  ((c.about x).filterMap Obs.bytes).reverse.flatten

theorem Core.Untouched.written (h : c.Untouched c' x) : c'.written x = c.written x := by
  rw [Core.written, Core.written, h.about]

/-- Writing out a queue adds what was written. -/
theorem Core.drained_written (c : Core) (x : SockId) (a : ASocket) (d : Drained) :
    (c.drained x a d).written x = c.written x ++ d.bytes := by
  simp [Core.written, Core.about, Core.drained, Obs.subject, Obs.bytes, List.filterMap_append,
    List.filterMap_replicate]

/-- Something is noted that says nothing about bytes. -/
theorem Core.note_written (c : Core) (x : SockId) {o : Obs} (h : o.bytes = none) :
    (c.note o).written x = c.written x := by
  by_cases ho : o.subject = some x
  · simp [Core.written, Core.about, Core.note, ho, h]
  · simp [Core.written, Core.about, Core.note, ho]

/-! ### What an operation does to a closing socket -/

/-- What an operation made of a closing socket with the record `a`: it is still closing, and
what was written is gone from its queue; or it was destroyed, with nothing left to write or
after a write failed. -/
def Advances (c₀ c c' : Core) (x : SockId) (a : ASocket) : Prop :=
  (∃ a' done, c'.sockets x = some a' ∧ a'.closing = true ∧ c'.written x = c.written x ++ done ∧
    done ++ unwritten a'.queue = unwritten a.queue) ∨
  (c'.sockets x = none ∧ (c'.written x = c.written x ++ unwritten a.queue ∨
    ∃ l, c.log = l ++ c₀.log ∧ .writeFailed x ∈ l))

/-- Nothing happened to the socket. -/
theorem Advances.same (hx : c'.sockets x = some a) (hc : a.closing = true)
    (hw : c'.written x = c.written x) : Advances e c c' x a :=
  .inl ⟨a, [], hx, hc, by simp [hw], by simp⟩

/-- A socket that is closing is closed by nothing but a failed write, or a read that meets
the end of file. -/
theorem Task.May.closes_closing {k : Task} {d : Close} (h : k.May e w (.close d))
    (hg : Op.Guard w (.close d)) (hgr : Graph w.core) (hc : d.self.closing = true)
    (hfind : ∀ id, e.find id ≠ some d.sock) (hread : k = .read d.sock → e.meetsEof = false) :
    ∃ l, w.core.log = l ++ e.log ∧ .writeFailed d.sock ∈ l := by
  obtain ⟨hs, -, hpeer, -, -⟩ := hg
  have hnone : d.self.peer = none := (hgr.shape hs).peer.mpr (.inr hc)
  have hfar : d.far = none := by
    rw [hnone] at hpeer
    simpa using hpeer.symm
  dsimp only [Task.May, Task.Closes] at h
  cases hd : d.how with
  | call =>
      rw [hd] at h
      obtain ⟨_, _, ⟨_, -, -, hf⟩, -⟩ | ⟨hl, -⟩ := h
      · exact absurd hf (hfind _)
      · exact hl
  | eof =>
      rw [hd] at h
      obtain ⟨hk, he | hp⟩ := h
      · simp [hread hk] at he
      · exact absurd hnone hp
  | locked =>
      rw [hd] at h
      obtain ⟨a, ha, -, hca⟩ := (hgr.mem_list _).mp h.1
      obtain rfl : d.self = a := Option.some.inj (hs.symm.trans ha)
      simp [hc] at hca
  | fromPeer =>
      rw [hd] at h
      exact absurd hfar h.1
  | disconnect =>
      rw [hd] at h
      obtain ⟨_, _, _, hf, -⟩ := h
      simp [hfar] at hf

/-- **What an operation does to a closing socket**, if no read on it meets the end of
file. -/
theorem Task.May.advances {k : Task} (h : k.May e w o) (hg : o.Guard w) (hgr : Graph w.core)
    (hx : w.core.sockets x = some a) (hc : a.closing = true)
    (hfind : ∀ id, e.find id ≠ some x) (hread : k = .read x → e.meetsEof = false) :
    Advances e w.core (o.effect w.core) x a := by
  obtain ⟨hl, hq⟩ := (hgr.shape hx).closing hc
  have hend : a.kind.isEnd = true := by
    revert hl
    cases a.kind <;> simp [SockKind.isLocal, SockKind.isEnd]
  by_cases ho : o.sock = some x
  · have hrec {b : ASocket} (hb : w.core.sockets x = some b) : b = a :=
      Option.some.inj (hb.symm.trans hx)
    have hjdwp {b : ASocket} (hb : w.core.sockets x = some b) (hj : b.kind.isJdwp = true) :
        False := by
      rw [hrec hb] at hj
      revert hl hj
      cases a.kind <;> simp [SockKind.isLocal, SockKind.isJdwp]
    have hopen {b : ASocket} (hb : w.core.sockets x = some b) (hn : b.closing = false) :
        False := by
      rw [hrec hb, hc] at hn
      cases hn
    have hgets {t : TId} {m : AMessage} (hm : k.Gets e t x m) : False := by
      obtain ⟨_, -, -, hf⟩ := hm
      exact hfind _ hf
    have hpeer {b : ASocket} {y : SockId} (hb : w.core.sockets x = some b)
        (hp : b.peer = some y) : False := by
      rw [hrec hb, (hgr.shape hx).peer.mpr (.inr hc)] at hp
      cases hp
    cases o with (dsimp only [Op.sock] at ho; cases ho)
    | deliver => exact (hgets h).elim
    | sendList =>
        obtain ⟨-, -, ⟨b, hb, hj⟩, -⟩ := hg
        exact (hjdwp hb hj).elim
    | flags => exact (hjdwp hg.1 hg.2).elim
    | collectFirst | collectMore =>
        have hk := hg.2.1
        rw [hrec hg.1] at hk
        simp [hk, SockKind.isEnd] at hend
    | choose =>
        have hk := hg.2
        rw [hrec hg.1] at hk
        simp [hk, SockKind.isEnd] at hend
    | rig => exact (hpeer hg.1 hg.2.1).elim
    | readOff => exact .same hx hc rfl
    | attach => exact (hopen hg.1 hg.2.2.2.1).elim
    | ready =>
        obtain ⟨b, hb, -, hn⟩ := hg
        exact (hopen hb hn).elim
    | wrteQueue | wrteBlock | wrteDone => exact (hopen hg.1 hg.2.2.1).elim
    | wrteFail =>
        obtain ⟨b, hb, -, hn⟩ := hg
        exact (hopen hb hn).elim
    | drain _ b d =>
        obtain ⟨hb, -, ⟨ws, rfl⟩, -⟩ := hg
        obtain rfl := hrec hb
        have hs : (w.core.drained x b (drain ws b.queue)).sockets x =
            some { b with queue := (drain ws b.queue).queue } := by
          simp [Core.drained, Core.freePkts, Core.putSock]
        refine .inl ⟨{ b with queue := (drain ws b.queue).queue },
          (drain ws b.queue).bytes, ?_, hc,
          ?_, drain_append ws b.queue⟩
        · dsimp only [Op.effect]
          split <;> exact hs
        · dsimp only [Op.effect]
          split
          · rw [Core.note_written _ _ rfl, Core.drained_written]
          · rw [Core.drained_written]
    | drainDestroy _ b d notes =>
        obtain ⟨hb, -, ⟨ws, rfl⟩, hv, hcl, hquiet⟩ := hg
        obtain rfl := hrec hb
        refine .inr ⟨?_, .inl ?_⟩
        · simp [Op.effect, Core.close, Close.fate, hcl]
        · have hnotes : ((w.core.drained x b (drain ws b.queue)).close
              ⟨x, { b with queue := (drain ws b.queue).queue }, none, .call, notes⟩).about x =
                (w.core.drained x b (drain ws b.queue)).about x := by
            simp only [Core.about, Core.close, List.filter_append]
            rw [List.filter_eq_nil_iff.mpr fun o ho => by simp [hquiet o ho], List.nil_append]
          dsimp only [Op.effect]
          rw [Core.written, hnotes, ← Core.written, Core.drained_written,
            drain_bytes_of_drained hv]
    | drainReady => exact (hopen hg.1 hg.2.2.2.2.1).elim
    | readWrte =>
        obtain ⟨hb, -, -, -, -, y, -, hp, -⟩ := hg
        exact (hpeer hb hp).elim
    | close d =>
        obtain rfl := hrec hg.1
        refine .inr ⟨?_, .inr (h.closes_closing hg hgr hc hfind hread)⟩
        simp [Op.effect, Core.close, Close.fate, hc]
  · have hu := o.untouched_end hgr hg hx hend ho
    exact .same (hu.sock.trans hx) hc hu.written

/-! ### Runs -/

/-- **What the socket `x`, closing in `e` with the queue `q`, has come to in `c`**: it is
closing, and its queue is what is left after the bytes written since; or it was destroyed,
after all of `q` was written or after a write failed. -/
def Drains (e : Core) (x : SockId) (q : List APacket) (c : Core) : Prop :=
  (∃ a done, c.sockets x = some a ∧ a.closing = true ∧ c.written x = e.written x ++ done ∧
    done ++ unwritten a.queue = unwritten q) ∨
  (c.sockets x = none ∧ (c.written x = e.written x ++ unwritten q ∨
    ∃ l, c.about x = l ++ e.about x ∧ .writeFailed x ∈ l))

/-- **A step spares the closing sockets**: it does not call back a closing socket with a
read that meets the end of file or an error. -/
def SparesClosing (s : System) (b : Action) : Prop :=
  ∀ x, s.task b = .read x → x ∈ s.core.localSocketClosingList → (s.start b).meetsEof = false

/-- What an operation makes of a closing socket, seen from where it was closed. -/
theorem Drains.advance {c₀ : Core} {done : List UInt8} (h : Advances c₀ c c' x a)
    (hdone : c.written x = e.written x ++ done) (hq : done ++ unwritten a.queue = unwritten q)
    (habout : ∃ l, c₀.about x = l ++ e.about x) (hgrow : ∃ l, c'.about x = l ++ c.about x) :
    Drains e x q c' := by
  rcases h with ⟨a', more, hx, hc, hw, hrest⟩ | ⟨hx, hw | ⟨l, hl, hf⟩⟩
  · refine .inl ⟨a', done ++ more, hx, hc, by rw [hw, hdone, List.append_assoc], ?_⟩
    rw [List.append_assoc, hrest, hq]
  · refine .inr ⟨hx, .inl ?_⟩
    rw [hw, hdone, List.append_assoc, hq]
  · obtain ⟨l₀, h₀⟩ := habout
    obtain ⟨l₁, h₁⟩ := hgrow
    have hmid : c.about x = l.filter (fun o => o.subject = some x) ++ c₀.about x := by
      rw [Core.about, Core.about, hl, List.filter_append]
    refine .inr ⟨hx, .inr ⟨l₁ ++ (l.filter (fun o => o.subject = some x) ++ l₀), ?_, ?_⟩⟩
    · rw [h₁, hmid, h₀]
      simp only [List.append_assoc]
    · simp [hf, Obs.subject]

variable {s s' : System} {b : Action}

/-- What an operation sequence makes of a closing socket. -/
theorem Ops.drains {k : Task} {c₀ : Core} (h : Ops (k.May c₀) w w') (hw : WF w)
    (hfresh : x < w.core.nextSock) (hd : Drains e x q w.core)
    (habout : ∃ l, c₀.about x = l ++ e.about x)
    (hlive : w.core.sockets x ≠ none → (∀ id, c₀.find id ≠ some x) ∧
      (k = .read x → c₀.meetsEof = false)) :
    Drains e x q w'.core := by
  refine (h.invariant (I := fun v => WF v ∧ x < v.core.nextSock ∧ Drains e x q v.core ∧
    (v.core.sockets x ≠ none → w.core.sockets x ≠ none)) ⟨hw, hfresh, hd, id⟩ ?_).2.2.1
  rintro v o ⟨hv, hlt, hdv, hback⟩ hg hmay
  have hlt' := Nat.lt_of_lt_of_le hlt (o.nextSock_le v.core)
  cases hx : v.core.sockets x with
  | none =>
      have hu := o.untouched_dead hv.graph hg hx fun _ => hlt
      refine ⟨hv.op hg, hlt', ?_, fun hn => absurd (hu.sock.trans hx) hn⟩
      rcases hdv with ⟨a, done, ha, -⟩ | ⟨-, hres⟩
      · simp [hx] at ha
      · exact .inr ⟨hu.sock.trans hx, by rw [Op.apply_core, hu.written, hu.about]; exact hres⟩
  | some a =>
      have hwx : w.core.sockets x ≠ none := hback (by simp [hx])
      obtain ⟨hfind, hread⟩ := hlive hwx
      rcases hdv with ⟨a', done, ha, hc, hdone, hq⟩ | ⟨hn, -⟩
      · obtain rfl : a = a' := Option.some.inj (hx.symm.trans ha)
        have hadv := hmay.advances hg hv.graph hx hc hfind hread
        exact ⟨hv.op hg, hlt', .advance hadv hdone hq habout (o.about_grows v.core x),
          fun _ => hwx⟩
      · simp [hx] at hn

/-- A step that spares the closing sockets. -/
theorem Drains.step (hs : Reachable s) (hd : Drains e x q s.core)
    (hfresh : x < s.core.nextSock)
    (habout : ∃ l, s.core.about x = l ++ e.about x) (hok : SparesClosing s b)
    (h : Adbd.step s b = .ok s') : Drains e x q s'.core := by
  have hstart : (s.start b).about x = s.core.about x ∧ (s.start b).find = s.core.find := by
    cases b <;> exact ⟨rfl, rfl⟩
  have hops := step_ops hs.wf hs.lives.unregistered h
  refine hops.drains hs.wf hfresh hd (by rw [hstart.1]; exact habout) fun hx => ?_
  obtain ⟨a, -, ha, hc, -⟩ | ⟨hn, -⟩ := hd
  · have hm : x ∈ s.core.localSocketClosingList := (hs.wf.graph.mem_closing x).mpr ⟨a, ha, hc⟩
    refine ⟨fun id hf => ?_, fun hk => hok x hk hm⟩
    rw [hstart.2] at hf
    obtain ⟨a', ha', -, hc'⟩ := (hs.wf.graph.mem_list x).mp (List.mem_of_find?_eq_some hf)
    obtain rfl : a = a' := Option.some.inj (ha.symm.trans ha')
    simp [hc] at hc'
  · exact absurd hn hx

/-- **A closing socket is destroyed only after its queue was written out, or after a write
failed**, in every run that spares the closing sockets; until then its queue is what is
left to write. -/
theorem closing_socket_drains (hs : Reachable s) (hx : x ∈ s.core.localSocketClosingList)
    (ha : s.core.sockets x = some a) (hrun : Trans.Runs Adbd.step SparesClosing s s') :
    Drains s.core x a.queue s'.core := by
  obtain ⟨a', ha', hc⟩ := (hs.wf.graph.mem_closing x).mp hx
  obtain rfl : a = a' := Option.some.inj (ha.symm.trans ha')
  suffices hinv : Reachable s' ∧ x < s'.core.nextSock ∧
    (∃ l, s'.core.about x = l ++ s.core.about x) ∧
      Drains s.core x a.queue s'.core from hinv.2.2.2
  refine Trans.Runs.invariant (I := fun y => Reachable y ∧ x < y.core.nextSock ∧
    (∃ l, y.core.about x = l ++ s.core.about x) ∧ Drains s.core x a.queue y.core) hrun
    ⟨hs, hs.wf.graph.fresh ha, ⟨[], rfl⟩, .inl ⟨a, [], ha, hc, by simp, rfl⟩⟩ ?_
  rintro y b y' ⟨hy, hlt, ⟨l, hl⟩, hd⟩ hok hstep
  obtain ⟨hle, l', hl'⟩ := (step_ops hy.wf hy.lives.unregistered hstep).about_grows x
  refine ⟨hy.tail trivial hstep, Nat.lt_of_lt_of_le hlt hle, ⟨l' ++ l, ?_⟩,
    hd.step hy hlt ⟨l, hl⟩ hok hstep⟩
  rw [hl', hl, List.append_assoc]

/-- A shell with an unwritten byte is closed by the remote, in a `select` round that also
found its descriptor readable. -/
def closeWhileReadable : List Action :=
  connect 0 .usb ++ openShell 0 5 7 ++ receive 0 A_WRTE 5 1 [65] { writes := [.eagain] } ++
    [.output 0 (some (wireMsg A_CLSE 5 1 [], [])) false,
     .select [(.transport 0, Events.onlyRead), (.sock 0, Events.onlyRead)], .dispatch {}]

/-- The read finds nothing, and then the byte is written out. -/
theorem closing_socket_drains_shell : ∃ s s' a, Reachable s ∧
    0 ∈ s.core.localSocketClosingList ∧ s.core.sockets 0 = some a ∧ unwritten a.queue = [65] ∧
    Trans.Runs step SparesClosing s s' ∧ s'.core.sockets 0 = none ∧
    Drains s.core 0 a.queue s'.core := by
  let test : System → Action → Bool := fun s b =>
    match s.task b with
    | .read _ => !(s.start b).meetsEof
    | _ => true
  have htest (s : System) (b : Action) (h : test s b = true) : SparesClosing s b := by
    intro x hk _
    simpa [test, hk] using h
  obtain ⟨s, hs, hP⟩ := exists_reachable closeWhileReadable
    (P := fun s => 0 ∈ s.core.localSocketClosingList ∧
      (s.core.sockets 0).any (fun a => unwritten a.queue = [65]) ∧
      (Trans.follow step test s [.dispatch { reads := [.eagain] },
        .select [(.sock 0, Events.onlyWrite)], .dispatch { writes := [.wrote 1] }]).any
          fun s' => s'.core.sockets 0 = none) (by decide +kernel)
  obtain ⟨hm, ha, hf⟩ := of_decide_eq_true hP
  obtain ⟨a, hx, hq⟩ := (Option.any_eq_true _ _).mp ha
  obtain ⟨s', hrun, hdead⟩ := Trans.exists_runs _ htest hf
  exact ⟨s, s', a, hs, hm, hx, of_decide_eq_true hq, hrun, of_decide_eq_true hdead,
    closing_socket_drains hs hm hx hrun⟩

/-- The read that was pending when the remote closed the shell meets the end of file, and
the byte is lost: it was not written, and no write failed. -/
theorem closing_socket_loses_byte : ∃ s s' a, Reachable s ∧ 0 ∈ s.core.localSocketClosingList ∧
    s.core.sockets 0 = some a ∧ unwritten a.queue = [65] ∧
    step s (.dispatch { reads := [.eof] }) = .ok s' ∧ s'.core.sockets 0 = none ∧
    s'.core.written 0 = [] ∧ .writeFailed 0 ∉ s'.core.log := by
  obtain ⟨s, hs, hP⟩ := exists_reachable closeWhileReadable
    (P := fun s => 0 ∈ s.core.localSocketClosingList ∧
      (s.core.sockets 0).any (fun a => unwritten a.queue = [65]) ∧
      s.leads (.dispatch { reads := [.eof] }) fun s' => s'.core.sockets 0 = none ∧
        s'.core.written 0 = [] ∧ .writeFailed 0 ∉ s'.core.log) (by decide +kernel)
  obtain ⟨hm, ha, hl⟩ := of_decide_eq_true hP
  obtain ⟨a, hx, hq⟩ := (Option.any_eq_true _ _).mp ha
  obtain ⟨s', hs', hlost⟩ := s.exists_step hl
  obtain ⟨hdead, hw, hf⟩ := of_decide_eq_true hlost
  exact ⟨s, s', a, hs, hm, hx, of_decide_eq_true hq, hs', hdead, hw, hf⟩

end Adbd
