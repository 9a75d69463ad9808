import Adbd.Trackers

/-!
# Draining a Queue Without a Peer

When an `FDE_WRITE` callback has written out the queue of a socket that is not closing it
calls `s->peer->ready(s->peer)`. A socket that is not closing has a peer unless it waits
for its `OKAY`: the client of a smart socket between the request and the answer. So the
call is defined as long as nothing is queued for a waiting socket.

Two things can queue something for it. A `WRTE` packet is delivered by its local id alone,
and its payload is queued if it cannot be written at once; and a client can have unwritten
packets at the moment its request is complete and the smart socket detaches itself. The
`FDE_READ` branch of the same callback tests `s->peer`; the `FDE_WRITE` branch does not.

## Main definitions

* `Core.WaitersEmpty`: nothing is queued for a socket that waits.
* `LeavesWaitersEmpty`: a step does neither of the two things.

## Main results

* `Core.WaitersEmpty.op`: what can put something into the queue of a waiting socket.
* `no_null_peer`: runs of such steps never follow a null peer.
-/

namespace Adbd

open Program Custody

variable {c : Core} {w w' : Work} {o : Op} {x : SockId} {a : ASocket}

/-- Nothing is queued for a local socket that waits for its `OKAY`. -/
def Core.WaitersEmpty (c : Core) : Prop :=
  ∀ x a, c.sockets x = some a → a.kind = .localNotify → a.closing = false → a.queue = []

/-- The operations that give a waiting socket a queue. -/
def Op.Burdens : Op → Prop
  | .rig _ a _ _ _ _ _ => a.queue ≠ []
  | .wrteBlock _ _ a _ _ _ => a.kind = .localNotify
  | _ => False

/-- **Every other operation leaves the waiting sockets without a queue.** -/
theorem Core.WaitersEmpty.op (h : w.core.WaitersEmpty) (hg : o.Guard w) (hb : ¬o.Burdens) :
    (o.effect w.core).WaitersEmpty := by
  intro x a hx hk hc
  -- a record that was overwritten is empty or does not wait
  have hput {y : SockId} {b : ASocket} (hx : (w.core.putSock y (some b)).sockets x = some a)
      (hb : b.kind = .localNotify → b.closing = false → b.queue = []) : a.queue = [] := by
    by_cases hy : x = y
    · subst hy
      obtain rfl : b = a := by simpa [Core.putSock] using hx
      exact hb hk hc
    · exact h x a (by simpa [Core.putSock, hy] using hx) hk hc
  have hjdwp {b : ASocket} (hj : b.kind.isJdwp = true) : b.kind ≠ .localNotify := by
    intro hn
    simp [hn, SockKind.isJdwp] at hj
  cases o with
  | flags s b => exact hput hx fun hn => absurd hn (hjdwp hg.2)
  | collectFirst s b | collectMore s b => exact hput hx fun hn => by simp [hg.2.1] at hn
  | choose s b => exact hput hx fun hn => by simp [hg.2] at hn
  | accept fd =>
      simp only [Op.effect, Core.accept] at hx
      split at hx
      · obtain rfl := Option.some.inj hx
        cases hk
      · split at hx
        · obtain rfl := Option.some.inj hx
          cases hk
        · exact h x a hx hk hc
  | openStream d =>
      simp only [Op.effect, Core.openStream] at hx
      split at hx
      · obtain rfl := Option.some.inj hx
        exact absurd hk hg.2.1
      · split at hx
        · obtain rfl := Option.some.inj hx
          cases hk
        · exact h x a hx hk hc
  | attach s b id t T m =>
      simp only [Op.effect, Core.attach] at hx
      split at hx
      · obtain rfl := Option.some.inj hx
        cases hk
      · split at hx
        · obtain rfl := Option.some.inj hx
          cases hk
        · exact h x a hx hk hc
  | rig s b ss b' t T p =>
      simp only [Op.effect, Core.rig] at hx
      split at hx
      · obtain rfl := Option.some.inj hx
        exact not_not.mp hb
      · split at hx
        · cases hx
        · exact h x a hx hk hc
  | wrteQueue t s b m p =>
      exact hput hx fun hn hcl => absurd (h s b hg.1 hn hcl) hg.2.2.2.1
  | wrteBlock t s b m p bs => exact hput hx fun hn => absurd hn hb
  | wrteDone t s b T m p =>
      rw [Op.wrteDone_sockets] at hx
      exact h x a hx hk hc
  | drain s b d =>
      rw [Op.drain_sockets] at hx
      refine hput hx fun hn hcl => ?_
      obtain ⟨hs, -, ⟨ws, rfl⟩, -⟩ := hg
      simp [h s b hs hn hcl, drain]
  | drainDestroy s b d notes =>
      have hcl := hg.2.2.2.2.1
      simp only [Op.effect, Core.close, Close.fate, hcl, Bool.true_or, if_true] at hx
      split at hx
      · cases hx
      · next hne =>
        refine h x a ?_ hk hc
        simpa [Core.drained, Core.freePkts, Core.putSock, hne] using hx
  | drainReady s b d far =>
      rw [Op.drainReady_sockets] at hx
      exact hput hx fun hn => by simp [hg.2.1] at hn
  | close d =>
      simp only [Op.effect, Core.close] at hx
      split at hx
      · rw [Close.fate] at hx
        split at hx
        · cases hx
        · obtain rfl := Option.some.inj hx
          cases hc
      · split at hx
        · cases hx
        · exact h x a hx hk hc
  | _ => exact h x a hx hk hc

/-! ### Steps -/

/-- **A step queues nothing for a waiting socket**: it delivers no `WRTE` whose payload
cannot be written at once to a local socket without a peer, and completes no request of a
client that has unwritten packets. -/
structure LeavesWaitersEmpty (s : System) (b : Action) : Prop where
  wrte : ∀ t p x a, s.task b = .packet t p → p.msg.command = A_WRTE →
    s.core.find p.msg.arg1 = some x → s.core.sockets x = some a → a.kind.isLocal = true →
    a.peer = none → (writeLoop (s.start b).io.writes p.payload.bytes).verdict ≠ .wouldBlock
  request : ∀ x a ss e r, s.task b = .read x → s.core.sockets x = some a → a.peer = some ss →
    s.core.sockets ss = some e → collected e.queue (s.start b).gets = some r → Requested r →
    a.queue = []

variable {s : System} {b : Action}

/-- The operations of such a step burden no waiting socket. -/
theorem Task.May.not_burdens (h : LeavesWaitersEmpty s b)
    (hm : (s.task b).May (s.start b) w o) (hgr : Graph w.core) (hg : o.Guard w) :
    ¬o.Burdens := by
  have hsock : (s.start b).sockets = s.core.sockets := by cases b <;> rfl
  have hfind : (s.start b).find = s.core.find := by cases b <;> rfl
  intro hb
  cases o with try exact hb
  | rig y a ss e t T p =>
      obtain ⟨hk, hy, -, -, e₀, r, he, hr, hreq⟩ := hm
      rw [hsock] at hy he
      exact hb (h.request y a ss e₀ r hk hy hg.2.1 he hr hreq)
  | wrteBlock t y a m p bs =>
      obtain ⟨⟨⟨-, -, -, hf⟩, hc, hy, p₀, hk, hp⟩, -, -, hv⟩ := hm
      have hmsg : p.msg = p₀.msg := by rw [hp]; rfl
      rw [hsock] at hy
      rw [hfind, hmsg] at hf
      rw [hmsg] at hc
      rw [hp] at hv
      have hpeer : a.peer = none := (hgr.shape hg.1).peer.mpr (.inl hb)
      exact h.wrte t p₀ y a hk hc hf hy hg.2.1 hpeer hv

/-- A handler of such a step leaves the waiting sockets without a queue, at every point. -/
theorem Ops.waitersEmpty (h : LeavesWaitersEmpty s b)
    (hops : Ops ((s.task b).May (s.start b)) w w') (hw : WF w) (he : w.core.WaitersEmpty) :
    w'.core.WaitersEmpty := by
  refine (hops.invariant (I := fun v => WF v ∧ v.core.WaitersEmpty) ⟨hw, he⟩ ?_).2
  rintro v o ⟨hv, hev⟩ hg hmay
  exact ⟨hv.op hg, hev.op hg (hmay.not_burdens h hv.graph hg)⟩

/-- Runs of such steps leave the waiting sockets without a queue. -/
theorem waitersEmpty_of_runs (h : Trans.Runs step LeavesWaitersEmpty System.init s) :
    s.core.WaitersEmpty := by
  induction h with
  | refl => simp [Core.WaitersEmpty, System.init, Core.init]
  | tail hrun hok hs ih =>
      have hr := Reachable.of_runs hrun
      exact (step_ops hr.wf hr.lives.unregistered hs).waitersEmpty hok hr.wf ih

/-- **No null peer is followed** in a run whose steps queue nothing for a waiting socket. -/
theorem no_null_peer (h : Trans.Runs step LeavesWaitersEmpty System.init s) (b : Action)
    (hb : LeavesWaitersEmpty s b) (x : SockId) : step s b ≠ .error (.fault (.nullPeer x)) := by
  intro hstep
  have hr := Reachable.of_runs h
  obtain ⟨v, hops, a, hx, hk, hc, hq⟩ := step_fault hr.wf hr.lives.unregistered hstep
  exact hq (hops.waitersEmpty hb hr.wf (waitersEmpty_of_runs h) x a hx hk hc)

/-- A client waits for its `OKAY` and gets a `WRTE` that can be written at once. -/
theorem no_null_peer_waiting : ∃ s a, Trans.Runs step LeavesWaitersEmpty System.init s ∧
    s.core.sockets 0 = some a ∧ a.kind = .localNotify ∧
    step s (.dispatch { writes := [.wrote 1] }) ≠ .error (.fault (.nullPeer 0)) := by
  let test : System → Action → Bool := fun s b =>
    match s.task b with
    | .packet _ p =>
        (writeLoop (s.start b).io.writes p.payload.bytes).verdict ≠ .wouldBlock ∨
          p.msg.command ≠ A_WRTE
    | .read x => (s.core.sockets x).all fun a => a.queue = []
    | _ => true
  have htest (s : System) (b : Action) (h : test s b = true) : LeavesWaitersEmpty s b := by
    constructor
    · intro t p x a hk hc _ _ _ _
      simpa [test, hk, hc] using h
    · intro x a ss e r hk hx _ _ _ _
      simpa [test, hk, hx] using h
  obtain ⟨s, hs, hP⟩ := exists_run
    (connect 0 .usb ++ askShell 0 9 ++ [.output 0 (some (wireMsg A_WRTE 5 1 [65], [65])) false,
      .select [(.transport 0, Events.onlyRead)]]) htest
    (P := fun s => (s.core.sockets 0).any (fun a => a.kind = .localNotify) ∧
      test s (.dispatch { writes := [.wrote 1] })) (by decide +kernel)
  obtain ⟨ha, ht⟩ := of_decide_eq_true hP
  obtain ⟨a, hx, hk⟩ := (Option.any_eq_true _ _).mp ha
  exact ⟨s, a, hs, hx, of_decide_eq_true hk, no_null_peer hs _ (htest s _ ht) 0⟩

/-- A `WRTE` for a client that waits for its `OKAY`, a write that would block, and the
`FDE_WRITE` callback that writes it out: there is no peer to tell. -/
theorem waiting_null_peer : ∃ s, Reachable s ∧
    step s (.dispatch { writes := [.wrote 1] }) = .error (.fault (.nullPeer 0)) := by
  obtain ⟨s, hs, hP⟩ := exists_reachable
    (connect 0 .usb ++ askShell 0 9 ++ receive 0 A_WRTE 5 1 [65] { writes := [.eagain] } ++
      [.select [(.sock 0, Events.onlyWrite)]])
    (P := fun s => s.faults (.dispatch { writes := [.wrote 1] }) = some (.nullPeer 0))
    (by decide +kernel)
  exact ⟨s, hs, s.step_of_faults (of_decide_eq_true hP)⟩

end Adbd
