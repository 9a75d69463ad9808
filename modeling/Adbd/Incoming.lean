import Adbd.Acks
import Adbd.Traffic

/-!
# The Bytes of a Remote

What a remote sends on a stream ends up in the descriptor of the local socket. On the way it is
in the pipe of the output thread, as whole packets, and then in the queue of the socket, as
what is left of their payloads. Both keep what is in them and its order, whatever the remote
sends and however the threads take turns: here the daemon is recorded with the packets that
were posted and those that were handled, and the bytes of a socket are compared with the
payloads handed to it.

## Main definitions

* `Core.Balanced`: what was taken for a socket is what was written, and what is queued.
* `Receipt`, `Recorded`: the daemon, with the packets that its threads posted and handled.
* `fedBytes`: the payloads that were handed to a socket.

## Main results

* `Core.Balanced.op`: operations other than those of a `WRTE` keep the balance.
* `step_taken`: a step hands a socket the payload of the `WRTE` it handles for it.
* `stream_download`: the bytes written are a prefix of those handed over, in their order, and
  the packets handled are those posted, in theirs.
-/

namespace Adbd

open Program Custody

variable {c c' e : Core} {w w' : Work} {o : Op} {x : SockId} {a : ASocket} {s s' : System}
  {t : TId} {T : ATransport} {p : APacket} {k : Task}

/-! ### The balance of a socket -/

/-- Notes without payloads. -/
theorem takenBytes_eq_nil {l : List Obs} (h : ∀ n ∈ l, n.payload = none) :
    takenBytes l = [] := by
  rw [takenBytes, List.filterMap_eq_nil_iff.mpr h]
  rfl

theorem writtenBytes_eq_nil {l : List Obs} (h : ∀ n ∈ l, n.bytes = none) :
    writtenBytes l = [] := by
  rw [writtenBytes, List.filterMap_eq_nil_iff.mpr h]
  rfl

/-- **The balance of a socket**: what was written is the first part of what was taken, and
while the socket is there the rest is in its queue. -/
structure Core.Balanced (c : Core) (x : SockId) : Prop where
  written : writtenBytes (c.about x) <+: takenBytes (c.about x)
  queued : ∀ a, c.sockets x = some a → a.kind.isLocal = true →
    takenBytes (c.about x) = writtenBytes (c.about x) ++ unwritten a.queue

/-- The operations that write something for `x`. -/
def Op.Drains (x : SockId) : Op → Prop
  | .drain s _ _ | .drainDestroy s _ _ _ | .drainReady s _ _ _ => s = x
  | _ => False

/-- The operations that hand a payload to `x`. -/
def Op.Feeds (x : SockId) : Op → Prop
  | .wrteQueue _ s _ _ _ | .wrteBlock _ s _ _ _ _ | .wrteFail _ s _ _ _ | .wrteDone _ s
      _ _ _ _ =>
      s = x
  | _ => False

/-- The other operations note no bytes of `x`. -/
theorem Op.idle_notes (hg : o.Guard w) (hd : ¬o.Drains x) (hf : ¬o.Feeds x) :
    ∀ n ∈ (o.notes c).filter (fun n => n.subject = some x), n.payload = none ∧
      n.bytes = none := by
  intro n hn
  obtain ⟨hn, hs⟩ := List.mem_filter.mp hn
  have hs : n.subject = some x := by simpa using hs
  cases o with
  | note m =>
      obtain rfl := List.mem_singleton.mp hn
      cases hg.symm.trans hs
  | close d =>
      have hquiet := hg.2.2.2.1 n hn
      cases hquiet.symm.trans hs
  | drainDestroy s a d notes =>
      simp only [Op.notes, List.mem_append, List.mem_replicate, List.mem_singleton] at hn
      rcases hn with (hn | ⟨-, rfl⟩) | rfl
      · cases (hg.2.2.2.2.2 n hn).symm.trans hs
      · exact absurd (Option.some.inj hs) hd
      · exact absurd (Option.some.inj hs) hd
  | drain s a d =>
      simp only [Op.notes, List.mem_append, List.mem_replicate, List.mem_singleton] at hn
      rcases hn with (hn | ⟨-, rfl⟩) | rfl
      · split at hn
        · obtain rfl := List.mem_singleton.mp hn
          exact absurd (Option.some.inj hs) hd
        · cases hn
      · exact absurd (Option.some.inj hs) hd
      · exact absurd (Option.some.inj hs) hd
  | drainReady s a d far =>
      simp only [Op.notes, List.mem_append, List.mem_replicate, List.mem_singleton] at hn
      rcases hn with (hn | ⟨-, rfl⟩) | rfl
      · cases far with
        | none => cases hn
        | some f =>
            obtain rfl := List.mem_singleton.mp hn
            exact absurd (Option.some.inj hs) hd
      · exact absurd (Option.some.inj hs) hd
      · exact absurd (Option.some.inj hs) hd
  | wrteQueue | wrteBlock | wrteFail | wrteDone =>
      simp only [Op.notes, List.mem_cons, List.not_mem_nil, or_false] at hn
      have hne : n.subject ≠ some x := by
        rcases hn with rfl | rfl | rfl | rfl | rfl <;>
          exact fun h => hf (Option.some.inj h)
      exact absurd hs hne
  | attach s b id t T m =>
      simp only [Op.notes, List.mem_append, List.mem_cons, List.not_mem_nil, or_false] at hn
      rcases hn with hn | rfl | rfl
      · split at hn
        · obtain rfl := List.mem_singleton.mp hn
          cases hs
        · cases hn
      · exact ⟨rfl, rfl⟩
      · exact ⟨rfl, rfl⟩
  | openStream d =>
      simp only [Op.notes, List.mem_cons, List.not_mem_nil, or_false] at hn
      rcases hn with rfl | rfl <;> exact ⟨rfl, rfl⟩
  | deliver | ready | send | sendList | readWrte | rig =>
      obtain rfl := List.mem_singleton.mp hn
      exact ⟨rfl, rfl⟩
  | _ => cases hn

/-- And so they leave what was taken and written. -/
theorem Op.idle_bytes (hg : o.Guard w) (hd : ¬o.Drains x) (hf : ¬o.Feeds x) :
    takenBytes ((o.effect w.core).about x) = takenBytes (w.core.about x) ∧
      writtenBytes ((o.effect w.core).about x) = writtenBytes (w.core.about x) := by
  have hidle := o.idle_notes (c := w.core) hg hd hf
  rw [o.about_effect, takenBytes_append, writtenBytes_append,
    takenBytes_eq_nil fun n hn => (hidle n hn).1, writtenBytes_eq_nil fun n hn =>
      (hidle n hn).2, List.append_nil, List.append_nil]
  exact ⟨rfl, rfl⟩

/-- They leave the queue of a local socket, too. -/
theorem Op.idle_queue {a' : ASocket} (hgr : Graph w.core) (hg : o.Guard w)
    (hx : w.core.sockets x = some a) (hx' : (o.effect w.core).sockets x = some a')
    (hl : a.kind.isLocal = true) (hd : ¬o.Drains x) (hf : ¬o.Feeds x) :
    a'.queue = a.queue := by
  have hrec {b : ASocket} (hb : w.core.sockets x = some b) : b = a :=
    Option.some.inj (hb.symm.trans hx)
  have hsmart {b : ASocket} (hb : w.core.sockets x = some b) (hk : b.kind = .smartSocket) :
      False := by
    rw [← hrec hb, hk] at hl
    cases hl
  by_cases hsock : o.sock = some x
  · cases o with (dsimp only [Op.sock] at hsock; cases hsock)
    | flags _ b =>
        obtain rfl := hrec hg.1
        simp only [Op.effect, Core.putSock, Function.update_self] at hx'
        rw [← Option.some.inj hx']
    | collectFirst _ b => exact (hsmart hg.1 hg.2.1).elim
    | collectMore _ b => exact (hsmart hg.1 hg.2.1).elim
    | choose _ b => exact (hsmart hg.1 hg.2).elim
    | rig _ b ss d t T p =>
        obtain rfl := hrec hg.1
        simp only [Op.effect, Core.rig, if_true] at hx'
        rw [← Option.some.inj hx']
    | attach _ b id t T m =>
        obtain rfl := hrec hg.1
        simp only [Op.effect, Core.attach, if_true] at hx'
        rw [← Option.some.inj hx']
    | wrteQueue | wrteBlock | wrteFail | wrteDone => exact absurd rfl hf
    | drain | drainDestroy | drainReady => exact absurd rfl hd
    | close d =>
        obtain rfl := hrec hg.1
        simp only [Op.effect, Core.close, if_true, Close.fate] at hx'
        split at hx'
        · cases hx'
        · rw [← Option.some.inj hx']
    | deliver | sendList | readOff | ready | readWrte =>
        rw [hrec (b := a') hx']
  · have hu := o.untouched_end hgr hg hx (SockKind.isEnd_of_isLocal hl) hsock
    rw [hrec (hu.sock.symm.trans hx')]

/-- Notes about what is written while a queue is drained. -/
theorem drain_notes {l : List Obs} (d : Drained)
    (hl : ∀ n ∈ l, n.payload = none ∧ n.bytes = none) (c c' : Core) (x : SockId)
    (hc : c'.log = l ++ List.replicate d.done.length (Obs.completed x) ++
      .wrote x d.bytes :: c.log) :
    takenBytes (c'.about x) = takenBytes (c.about x) ∧
      writtenBytes (c'.about x) = writtenBytes (c.about x) ++ d.bytes := by
  have hidle : ∀ n ∈ (l ++ List.replicate d.done.length (Obs.completed x)).filter
      (fun n : Obs => n.subject = some x), n.payload = none ∧ n.bytes = none := by
    intro n hn
    rcases List.mem_append.mp (List.mem_of_mem_filter hn) with hn | hn
    · exact hl n hn
    · rw [(List.mem_replicate.mp hn).2]
      exact ⟨rfl, rfl⟩
  have habout : c'.about x = (l ++ List.replicate d.done.length (Obs.completed x)).filter
      (fun n : Obs => n.subject = some x) ++ .wrote x d.bytes :: c.about x := by
    rw [Core.about, hc, List.filter_append, List.filter_cons_of_pos (by simp [Obs.subject])]
    rfl
  rw [habout, takenBytes_append, writtenBytes_append, takenBytes_eq_nil fun n hn =>
    (hidle n hn).1, writtenBytes_eq_nil fun n hn => (hidle n hn).2]
  simp [Obs.payload, Obs.bytes]

/-- An operation that writes takes the front off the queue. -/
theorem Op.drains_bytes (hg : o.Guard w) (hd : o.Drains x) :
    ∃ (a : ASocket) (ws : List WriteRes), w.core.sockets x = some a ∧ a.kind.isLocal = true ∧
      takenBytes ((o.effect w.core).about x) = takenBytes (w.core.about x) ∧
      writtenBytes ((o.effect w.core).about x) =
        writtenBytes (w.core.about x) ++ (Adbd.drain ws a.queue).bytes ∧
      ∀ a', (o.effect w.core).sockets x = some a' →
        a'.queue = (Adbd.drain ws a.queue).queue := by
  have hqueue {b a' : ASocket} {d : Drained}
    (hx' : (w.core.drained x b d).sockets x = some a') :
      a'.queue = d.queue := by
    simp only [Core.drained, Core.freePkts, Core.putSock, Function.update_self] at hx'
    rw [← Option.some.inj hx']
  cases o with
  | drain s b d =>
      obtain rfl : s = x := hd
      obtain ⟨hb, hl, ⟨ws, rfl⟩, -⟩ := hg
      obtain ⟨htaken, hwritten⟩ := drain_notes (Adbd.drain ws b.queue)
        (l := if (Adbd.drain ws b.queue).verdict = .failed then [.writeFailed s] else [])
        (fun n hn => by
          split at hn
          · rw [List.mem_singleton.mp hn]
            exact ⟨rfl, rfl⟩
          · cases hn) w.core (Op.effect w.core (.drain s b (Adbd.drain ws b.queue))) s
        (by rw [Op.effect_log, Op.notes]; simp)
      exact ⟨b, ws, hb, hl, htaken, hwritten, fun a' hx' => hqueue (Op.drain_sockets ▸ hx')⟩
  | drainDestroy s b d notes =>
      obtain rfl : s = x := hd
      obtain ⟨hb, hl, ⟨ws, rfl⟩, -, hcl, hquiet⟩ := hg
      have hlog :
        (Op.effect w.core (.drainDestroy s b (Adbd.drain ws b.queue) notes)).about s =
          (w.core.drained s b (Adbd.drain ws b.queue)).about s := by
        rw [Core.about, Core.about, Op.effect, Core.close, List.filter_append,
          List.filter_eq_nil_iff.mpr fun o ho => by simp [hquiet o ho], List.nil_append]
      obtain ⟨htaken, hwritten⟩ :=
        drain_notes (Adbd.drain ws b.queue) (l := []) (by simp) w.core
        (w.core.drained s b (Adbd.drain ws b.queue)) s (by simp [Core.drained])
      refine ⟨b, ws, hb, hl, by rw [hlog, htaken], by rw [hlog, hwritten], fun a' hx' => ?_⟩
      simp [Op.effect, Core.close, Close.fate, hcl] at hx'
  | drainReady s b d far =>
      obtain rfl : s = x := hd
      obtain ⟨hb, hk, ⟨ws, rfl⟩, -⟩ := hg
      have hl : b.kind.isLocal = true := by
        rw [hk]
        rfl
      obtain ⟨htaken, hwritten⟩ := drain_notes (Adbd.drain ws b.queue)
        (l := far.toList.map fun f =>
          .sent f.1 (some s) (ctlPacket w.core.nextPkt A_OKAY b.id f.2.2).msg)
        (fun n hn => by
          cases far with
          | none => exact absurd hn List.not_mem_nil
          | some f =>
              rw [List.mem_singleton.mp hn]
              exact ⟨rfl, rfl⟩)
        w.core (Op.effect w.core (.drainReady s b (Adbd.drain ws b.queue) far)) s
        (by cases far <;> simp [Op.effect_log, Op.notes])
      exact ⟨b, ws, hb, hl, htaken, hwritten,
        fun a' hx' => hqueue (Op.drainReady_sockets ▸ hx')⟩
  | _ => exact hd.elim

/-- **Operations other than those of a `WRTE` keep the balance**, and take nothing. -/
theorem Core.Balanced.op (h : w.core.Balanced x) (hgr : Graph w.core) (hfresh : w.core.Fresh)
    (hg : o.Guard w) (hf : ¬o.Feeds x) :
    (o.effect w.core).Balanced x ∧
      takenBytes ((o.effect w.core).about x) = takenBytes (w.core.about x) := by
  by_cases hd : o.Drains x
  · -- what is written now comes from the front of the queue
    obtain ⟨a, ws, hx, hl, htaken, hwritten, hqueue⟩ := o.drains_bytes hg hd
    have hsplit := h.queued a hx hl
    rw [← drain_append ws a.queue, ← List.append_assoc, ← hwritten] at hsplit
    refine ⟨⟨?_, fun a' hx' _ => ?_⟩, htaken⟩
    · rw [htaken]
      exact ⟨_, hsplit.symm⟩
    · rw [htaken, hsplit, hqueue a' hx']
  · obtain ⟨htaken, hwritten⟩ := o.idle_bytes hg hd hf
    refine ⟨⟨by rw [htaken, hwritten]; exact h.written, fun a' hx' hl' => ?_⟩, htaken⟩
    rw [htaken, hwritten]
    cases hx : w.core.sockets x with
    | none =>
        have hnil (hnew : x = w.core.nextSock) : w.core.about x = [] :=
          hfresh x (Nat.le_of_eq hnew.symm)
        obtain ⟨rfl, ⟨fd, rfl⟩ | ⟨d, rfl, -⟩⟩ := o.born hgr hg hx hx' hl'
        · simp only [Op.effect, Core.accept, if_true] at hx'
          obtain rfl := Option.some.inj hx'
          rw [hnil rfl]
          rfl
        · simp only [Op.effect, Core.openStream, if_true] at hx'
          obtain rfl := Option.some.inj hx'
          rw [hnil rfl]
          rfl
    | some a =>
        have hl : a.kind.isLocal = true := (o.isLocal_old hgr hg hx hx').symm.trans hl'
        rw [o.idle_queue hgr hg hx hx' hl hd hf]
        exact h.queued a hx hl

/-! ### The payload of a `WRTE` -/

/-- A payload for a local socket, and what becomes of its queue. -/
theorem Core.Balanced.fed (h : c.Balanced x) (bs done rest : List UInt8)
    (hx : c.sockets x = some a) (hl : a.kind.isLocal = true)
    (htaken : takenBytes (c'.about x) = takenBytes (c.about x) ++ bs)
    (hwritten : writtenBytes (c'.about x) = writtenBytes (c.about x) ++ done)
    (hrest : unwritten a.queue ++ bs = done ++ rest)
    (hx' : ∀ a', c'.sockets x = some a' → unwritten a'.queue = rest) : c'.Balanced x := by
  have hsplit : takenBytes (c'.about x) = writtenBytes (c'.about x) ++ rest := by
    rw [htaken, hwritten, h.queued a hx hl, List.append_assoc, hrest, List.append_assoc]
  exact ⟨⟨rest, hsplit.symm⟩, fun a' ha' _ => by rw [hx' a' ha', hsplit]⟩

/-- A note that is not about bytes. -/
theorem Core.Balanced.noted (h : c.Balanced x) (c' : Core) (n : Obs)
    (hs : c'.sockets x = c.sockets x) (hlog : c'.log = n :: c.log) (hp : n.payload = none)
    (hb : n.bytes = none) :
    c'.Balanced x ∧ takenBytes (c'.about x) = takenBytes (c.about x) := by
  have hsame : takenBytes (c'.about x) = takenBytes (c.about x) ∧
      writtenBytes (c'.about x) = writtenBytes (c.about x) := by
    rw [Core.about, hlog]
    by_cases hn : n.subject = some x
    · rw [List.filter_cons_of_pos (by simpa using hn), takenBytes_cons, writtenBytes_cons, hp,
        hb]
      simp [Core.about]
    · rw [List.filter_cons_of_neg (by simpa using hn)]
      exact ⟨rfl, rfl⟩
  refine ⟨⟨by rw [hsame.1, hsame.2]; exact h.written, fun a' ha' hl' => ?_⟩, hsame.1⟩
  rw [hsame.1, hsame.2, h.queued a' (hs ▸ ha') hl']

/-- Closing takes and writes nothing. -/
theorem Ops.closes_bytes (h : Ops (fun _ o => ∃ d, o = .close d) w w') :
    takenBytes (w'.core.about x) = takenBytes (w.core.about x) ∧
      writtenBytes (w'.core.about x) = writtenBytes (w.core.about x) := by
  refine h.invariant (I := fun v => takenBytes (v.core.about x) = takenBytes (w.core.about x) ∧
    writtenBytes (v.core.about x) = writtenBytes (w.core.about x)) ⟨rfl, rfl⟩ ?_
  rintro v o ⟨htaken, hwritten⟩ hg ⟨d, rfl⟩
  obtain ⟨htaken', hwritten'⟩ := Op.idle_bytes (x := x) hg id id
  exact ⟨htaken'.trans htaken, hwritten'.trans hwritten⟩

/-- After a failed write what was not written goes with the socket. -/
theorem wp_callClose_failed {bs done rest : List UInt8} (hw : WF w) (h : c.Balanced x)
    (hx : c.sockets x = some a) (hl : a.kind.isLocal = true) (hq : a.queue = [])
    (hs : w.core.sockets x = some a)
    (htaken : takenBytes (w.core.about x) = takenBytes (c.about x) ++ bs)
    (hwritten : writtenBytes (w.core.about x) = writtenBytes (c.about x) ++ done)
    (hbs : done ++ rest = bs) :
    wp (callClose x) (fun _ c' => c'.Balanced x ∧
      takenBytes (c'.about x) = takenBytes (c.about x) ++ bs) (fun _ => True) w.core := by
  have hclose := Does.closeEnd (P := fun _ o => ∃ d, o = .close d) (v := .call) hs
    (SockKind.isEnd_of_isLocal hl) (.inl rfl) (fun _ => ⟨_, rfl⟩) hw
  refine wp_mono hclose ?_ fun _ _ => trivial
  rintro _ c' ⟨H, hops, l, hH⟩
  obtain ⟨htaken', hwritten'⟩ := hops.closes_bytes (x := x)
  obtain rfl : c' = _ := congrArg Work.core hH
  refine ⟨h.fed bs done rest hx hl (htaken'.trans htaken) (hwritten'.trans hwritten)
    (by rw [hq, hbs]; rfl) ?_, htaken'.trans htaken⟩
  intro a' ha'
  simp [Op.effect, Core.close, Close.fate, hq] at ha'

/-- **`local_socket_enqueue`** takes the payload of a `WRTE` once. It is written, or queued, or
the socket is gone. -/
theorem wp_localSocketEnqueue (hw : WF ⟨c, [p.addr]⟩) (h : c.Balanced x)
    (hx : c.sockets x = some a) (hl : a.kind.isLocal = true) (hc : a.closing = false)
    (hptr : p.ptr = 0) :
    wp (localSocketEnqueue x p) (fun r c' => c'.Balanced x ∧
      takenBytes (c'.about x) = takenBytes (c.about x) ++ p.bytes ∧
      (r = 0 → c'.sockets x = some a)) (fun _ => True) (c.note (.delivered t x p.msg)) := by
  have hp : ({ p with ptr := 0 } : APacket) = p := by rw [← hptr]
  rw [localSocketEnqueue, wp_bind]
  refine (wp_getSock_of (by exact hx)).mpr ?_
  dsimp only
  rw [hp, wp_bind, wp_note]
  by_cases hq : a.queue = []
  · rw [if_neg (by simpa using hq)]
    have hio : ((c.note (.delivered t x p.msg)).note (.taken x p.bytes)).io = c.io := rfl
    obtain ⟨r, hr⟩ : ∃ r, r = writeLoop c.io.writes p.bytes := ⟨_, rfl⟩
    have hsplit := writeLoop_append c.io.writes p.bytes
    rw [← hr] at hsplit
    rw [wp_bind, wp_get, hio, ← hr, wp_bind, setWrites, wp_modify, wp_bind, wp_note]
    cases hv : r.verdict with
    | failed =>
        have hwf₁ : WF ((Op.io { c.io with writes := r.left }).apply ⟨c, [p.addr]⟩) :=
          hw.op trivial
        have hwf₂ := hwf₁.op (o := .wrteFail t x p.msg p r.bytes) ⟨a, hx, hl, hc⟩
        dsimp only
        rw [wp_bind, wp_note, wp_bind]
        refine wp_mono (wp_callClose_failed hwf₂ h hx hl hq hx ?_ ?_ hsplit) ?_ fun _ => id
        · simp [Core.about, Op.effect, Core.note, Obs.subject, Obs.payload]
        · simp [Core.about, Op.effect, Core.note, Obs.subject, Obs.bytes]
        · exact fun _ _ hfed => ⟨hfed.1, hfed.2, fun h => absurd h (by decide)⟩
    | drained =>
        have hbytes : r.bytes = p.bytes := by
          rw [hr]
          exact (writeLoop_drained_iff _ _).mp (hr ▸ hv)
        have hlive : c.livePkts p.addr = true :=
          hw.pkts.live (o := .hand) (by simp [Work.ledger, Work.held])
        dsimp only
        rw [wp_bind, wp_note, wp_bind]
        refine (wp_putApacket (by exact hlive)).mpr ⟨h.fed p.bytes p.bytes [] hx hl ?_ ?_
          (by rw [hq, List.append_nil]; rfl) ?_, ?_, fun _ => hx⟩
        · simp [Core.about, Core.freePkts, Core.note, Obs.subject, Obs.payload]
        · simp [Core.about, Core.freePkts, Core.note, Obs.subject, Obs.bytes, hbytes]
        · intro a' ha'
          rw [← Option.some.inj (hx.symm.trans ha'), hq, unwritten_nil]
        · simp [Core.about, Core.freePkts, Core.note, Obs.subject, Obs.payload]
    | wouldBlock =>
        dsimp only
        rw [wp_bind]
        refine (wp_linkTail (by exact hx)).mpr
          ⟨h.fed p.bytes r.bytes (p.bytes.drop r.bytes.length) hx hl
          ?_ ?_ (by rw [hq]; exact hsplit.symm) ?_, ?_, fun h => absurd h (by decide)⟩
        · simp [Core.about, Core.link, Core.onLoop, Core.putSock, Core.note, Obs.subject,
            Obs.payload]
        · simp [Core.about, Core.link, Core.onLoop, Core.putSock, Core.note, Obs.subject,
            Obs.bytes]
        · intro a' ha'
          simp only [Core.link, Core.onLoop, Core.putSock, Function.update_self] at ha'
          rw [← Option.some.inj ha', unwritten_append, hq]
          simp [APacket.bytes_advance]
        · simp [Core.about, Core.link, Core.onLoop, Core.putSock, Core.note, Obs.subject,
            Obs.payload]
  · rw [if_pos hq, wp_bind]
    refine (wp_linkTail (by exact hx)).mpr
      ⟨h.fed p.bytes [] (unwritten a.queue ++ p.bytes) hx hl
      ?_ ?_ rfl ?_, ?_, fun h => absurd h (by decide)⟩
    · simp [Core.about, Core.link, Core.onLoop, Core.putSock, Core.note, Obs.subject,
        Obs.payload]
    · simp [Core.about, Core.link, Core.onLoop, Core.putSock, Core.note, Obs.subject,
        Obs.bytes]
    · intro a' ha'
      simp only [Core.link, Core.onLoop, Core.putSock, Function.update_self] at ha'
      rw [← Option.some.inj ha', unwritten_append]
      simp
    · simp [Core.about, Core.link, Core.onLoop, Core.putSock, Core.note, Obs.subject,
        Obs.payload]

/-- **A `WRTE` for a local socket** hands it the payload. -/
theorem wp_deliverWrte (hw : WF ⟨c, [p.addr]⟩) (h : c.Balanced x) (hx : c.sockets x = some a)
    (hl : a.kind.isLocal = true) (hc : a.closing = false) :
    wp (deliverWrte p t x) (fun _ c' => c'.Balanced x ∧
      takenBytes (c'.about x) = takenBytes (c.about x) ++ p.payload.bytes)
        (fun _ => True) c := by
  rw [deliverWrte, wp_bind, wp_note, wp_bind]
  refine (wp_callEnqueue_local (by exact hx) hl).mpr ?_
  have htake : wp (localSocketEnqueue x p.payload) _ (fun _ => True)
      (c.note (.delivered t x p.payload.msg)) :=
    wp_localSocketEnqueue (p := p.payload) (t := t) hw h hx hl hc rfl
  refine wp_mono (by exact htake) ?_ fun _ _ => trivial
  rintro r c' ⟨hbal, htaken, hkept⟩
  by_cases hr : r = 0
  · rw [if_pos hr, wp_bind]
    refine (wp_getSock_of (hkept hr)).mpr ?_
    refine wp_sendOkay (fun T hT _ => ?_) (fun _ _ _ => trivial) fun _ => trivial
    obtain ⟨hbal', htaken'⟩ := hbal.noted ((c'.newPkt.push t T _).note (.sent t (some x) _)) _
      rfl rfl rfl rfl
    exact ⟨hbal', htaken'.trans htaken⟩
  · rw [if_neg hr, wp_pure]
    exact ⟨hbal, htaken⟩

/-! ### Steps -/

/-- The local socket that is handed the payload of a packet: that of a `WRTE` is, if its
transport is online, the one that `find_local_socket` returns. -/
def System.addressee (s : System) (t : TId) (p : APacket) : Option SockId :=
  if p.msg.command = A_WRTE ∧ (s.core.transports t).any (·.online) then
    (s.core.find p.msg.arg1).filter fun x => (s.core.sockets x).any (·.kind.isLocal)
  else none

theorem System.addressee_eq_some : s.addressee t p = some x ↔ p.msg.command = A_WRTE ∧
    (s.core.transports t).any (·.online) = true ∧ s.core.find p.msg.arg1 = some x ∧
      ∃ a, s.core.sockets x = some a ∧ a.kind.isLocal = true := by
  rw [System.addressee]
  split
  · next h => simp [h, Option.filter_eq_some_iff, Option.any_eq_true]
  · next h => exact iff_of_false (by simp) fun h' => h ⟨h'.1, h'.2.1⟩

/-- A packet that the main loop has handled, and the socket its payload was handed to. -/
structure Receipt where
  transport : TId
  packet : APacket
  sock : Option SockId

/-- The packet that a step handles. -/
def System.receipts (s : System) (b : Action) : List Receipt :=
  match s.task b with
  | .packet t p => [⟨t, p, s.addressee t p⟩]
  | _ => []

/-- The payloads that were handed to `x`. -/
def fedBytes (x : SockId) (rs : List Receipt) : List UInt8 :=
  (rs.filter fun r => r.sock = some x).flatMap fun r => r.packet.payload.bytes

theorem fedBytes_append (rs rs' : List Receipt) :
    fedBytes x (rs ++ rs') = fedBytes x rs ++ fedBytes x rs' := by
  rw [fedBytes, List.filter_append, List.flatMap_append]
  rfl

/-- Which handlers hand a payload to `x`. -/
theorem Task.May.feeds (hm : k.May e w o) (hg : o.Guard w) (hf : o.Feeds x) :
    ∃ t p a, k = .packet t p ∧ p.msg.command = A_WRTE ∧ e.find p.msg.arg1 = some x ∧
      e.sockets x = some a ∧ a.kind.isLocal = true := by
  have htakes {t : TId} {a : ASocket} {p : APacket} (h : k.Takes e t x a p)
      (hl : a.kind.isLocal = true) : ∃ t p a, k = .packet t p ∧ p.msg.command = A_WRTE ∧
        e.find p.msg.arg1 = some x ∧ e.sockets x = some a ∧ a.kind.isLocal = true := by
    obtain ⟨⟨p₀, hk, hmsg, hfind⟩, hc, hx, -⟩ := h
    exact ⟨t, p₀, a, hk, hmsg ▸ hc, hmsg.symm ▸ hfind, hx, hl⟩
  cases o with
  | wrteQueue t s a m p =>
      obtain rfl : s = x := hf
      exact htakes hm.1 hg.2.1
  | wrteBlock t s a m p bs =>
      obtain rfl : s = x := hf
      exact htakes hm.1 hg.2.1
  | wrteDone t s a T m p =>
      obtain rfl : s = x := hf
      exact htakes hm.1 hg.2.1
  | wrteFail t s m p bs =>
      obtain rfl : s = x := hf
      obtain ⟨a, ht, -, hl, -⟩ := hm
      exact htakes ht hl
  | _ => exact hf.elim

/-- A handler that hands nothing to `x`. -/
theorem Ops.unfed (h : Ops (k.May e) w w') (hw : WF w) (hfresh : w.core.Fresh)
    (hbal : w.core.Balanced x) (hno : ∀ t p a, k = .packet t p → p.msg.command = A_WRTE →
      e.find p.msg.arg1 = some x → e.sockets x = some a → a.kind.isLocal = true → False) :
    w'.core.Balanced x ∧ takenBytes (w'.core.about x) = takenBytes (w.core.about x) := by
  refine (h.invariant (I := fun v => WF v ∧ v.core.Fresh ∧ v.core.Balanced x ∧
    takenBytes (v.core.about x) = takenBytes (w.core.about x)) ⟨hw, hfresh, hbal, rfl⟩ ?_).2.2
  rintro v o ⟨hv, hf, hb, htaken⟩ hg hm
  have hunfed : ¬o.Feeds x := fun h => by
    obtain ⟨t, p, a, hk, hc, hfind, hx, hl⟩ := hm.feeds hg h
    exact hno t p a hk hc hfind hx hl
  obtain ⟨hb', htaken'⟩ := hb.op hv.graph hf hg hunfed
  exact ⟨hv.op hg, hf.op hv.graph hg, hb', htaken'.trans htaken⟩

/-- `handle_packet` finds the log as it was. -/
theorem System.Handles.log_eq {io : Io} (h : s.Handles io t p c) : c.log = s.core.log := by
  obtain ⟨c₁, T, rest, hr, -, -, -, rfl⟩ := h
  cases hr <;> rfl

/-- It looks for the socket that a packet is for where the main loop has it. -/
theorem System.Handles.find_eq {io : Io} (h : s.Handles io t p c) : c.find = s.core.find := by
  funext id
  rw [Core.find, Core.find, h.list_eq, h.sockets_eq]

theorem System.Handles.balanced {io : Io} (h : s.Handles io t p c) (hb : s.core.Balanced x) :
    c.Balanced x ∧ c.about x = s.core.about x := by
  have habout : c.about x = s.core.about x := by rw [Core.about, Core.about, h.log_eq]
  refine ⟨⟨by rw [habout]; exact hb.written, fun a ha => ?_⟩, habout⟩
  rw [habout]
  exact hb.queued a (h.sockets_eq ▸ ha)

/-- The transport is online for it if it was. -/
theorem System.Handles.online_eq {io : Io} (h : s.Handles io t p c) :
    (c.transports t).any (·.online) = (s.core.transports t).any (·.online) := by
  obtain ⟨c₁, T, rest, hr, hT, -, -, rfl⟩ := h
  rw [← hr.transports_eq, hT]
  simp [Core.putTransport]

/-- A `WRTE` for a local socket that is handled on an online transport. -/
theorem wp_handlePacket_fed (hw : WF ⟨c, [p.addr]⟩) (h : c.Balanced x)
    (hm : p.msg.command = A_WRTE)
    (ho : (c.transports t).any (·.online) = true) (hf : c.find p.msg.arg1 = some x)
    (hx : c.sockets x = some a) (hl : a.kind.isLocal = true) :
    wp (handlePacket p t) (fun _ c' => c'.Balanced x ∧
      takenBytes (c'.about x) = takenBytes (c.about x) ++ p.payload.bytes)
        (fun _ => True) c := by
  obtain ⟨T, hT, hon⟩ := (Option.any_eq_true _ _).mp ho
  obtain ⟨a', hx', -, hc, -⟩ := hw.graph.find_some hf
  obtain rfl : a' = a := Option.some.inj (hx'.symm.trans hx)
  rw [handlePacket, wp_bind]
  refine (wp_getTransport_of hT).mpr ?_
  rw [if_neg (by rw [hm]; decide), if_pos hm, if_pos hon, handleWrte, wp_bind,
    wp_findLocalSocket hw.graph, hf]
  exact wp_deliverWrte hw h hx hl hc

/-- A `WRTE` on a transport that is not online is dropped. -/
theorem wp_handlePacket_dropped (hw : WF ⟨c, [p.addr]⟩) (hm : p.msg.command = A_WRTE)
    (ho : (c.transports t).any (·.online) = false) :
    wp (handlePacket p t) (fun _ c' => c'.sockets = c.sockets ∧ c'.log = c.log)
      (fun _ => True) c := by
  have hlive : c.livePkts p.addr = true :=
    hw.pkts.live (o := .hand) (by simp [Work.ledger, Work.held])
  rw [handlePacket, wp_bind, wp_getTransport]
  cases hT : c.transports t with
  | none => simp
  | some T =>
      have hoff : ¬T.online = true := by simpa [hT] using ho
      refine ⟨fun T' hT' => ?_, fun _ => trivial⟩
      obtain rfl := Option.some.inj hT'
      rw [if_neg (by rw [hm]; decide), if_pos hm, if_neg hoff]
      exact (wp_putApacket hlive).mpr ⟨rfl, rfl⟩

/-- **A step hands a socket the payload of the `WRTE` that it handles for it**, and keeps its
balance. -/
theorem step_taken {b : Action} (hr : Reachable s) (hs : step s b = .ok s')
    (h : s.core.Balanced x) : s'.core.Balanced x ∧
      takenBytes (s'.core.about x) = takenBytes (s.core.about x) ++
        fedBytes x (s.receipts b) := by
  have hstart : (s.start b).sockets = s.core.sockets ∧ (s.start b).find = s.core.find := by
    cases b <;> exact ⟨rfl, rfl⟩
  have hops := step_ops hr.wf hr.lives.unregistered hs
  by_cases hk : ∃ t p a, s.task b = .packet t p ∧ p.msg.command = A_WRTE ∧
      s.core.find p.msg.arg1 = some x ∧ s.core.sockets x = some a ∧ a.kind.isLocal = true
  · obtain ⟨t, p, a, hk, hm, hf, hx, hl⟩ := hk
    obtain ⟨io, rfl⟩ := System.dispatch_of_task (s := s) (a := b) (by rw [hk]; trivial)
    obtain ⟨c, hh⟩ := System.exists_handles hk
    obtain ⟨hb, habout⟩ := hh.balanced h
    have hrun := hh.step_eq.symm.trans hs
    have hw := hh.wf hr.wf
    rw [System.receipts, hk]
    by_cases ho : (s.core.transports t).any (·.online) = true
    · have hfed := System.run_does (wp_handlePacket_fed hw hb hm (hh.online_eq.trans ho)
        (hh.find_eq.symm ▸ hf) (hh.sockets_eq.symm ▸ hx) hl) hrun
      have hto : s.addressee t p = some x :=
        System.addressee_eq_some.mpr ⟨hm, ho, hf, a, hx, hl⟩
      have hbytes : fedBytes x [⟨t, p, s.addressee t p⟩] = p.payload.bytes := by
        simp [fedBytes, hto]
      dsimp only
      rw [hbytes, ← habout]
      exact hfed
    · obtain ⟨hsock, hlog⟩ := System.run_does
        (wp_handlePacket_dropped hw hm (hh.online_eq.trans (by simpa using ho))) hrun
      have hsame (d : Core) (hd : d.log = c.log) : d.about x = s.core.about x := by
        rw [← habout, Core.about, Core.about, hd]
      have hto : s.addressee t p = none := if_neg fun h => ho h.2
      have hnil : fedBytes x [⟨t, p, s.addressee t p⟩] = [] := by simp [fedBytes, hto]
      dsimp only
      rw [hnil, List.append_nil, hsame _ hlog]
      refine ⟨⟨by rw [hsame _ hlog]; exact h.written, fun a' ha' => ?_⟩, rfl⟩
      rw [hsame _ hlog]
      exact h.queued a' (hh.sockets_eq ▸ hsock ▸ ha')
  · obtain ⟨hb, htaken⟩ := hops.unfed hr.wf hr.fresh h fun t p a hk' hm hf hx hl => by
      rw [hstart.2] at hf
      rw [hstart.1] at hx
      exact hk ⟨t, p, a, hk', hm, hf, hx, hl⟩
    refine ⟨hb, ?_⟩
    have hnil : fedBytes x (s.receipts b) = [] := by
      rw [System.receipts]
      split
      · next t p hk' =>
        have hto : s.addressee t p ≠ some x := fun h => by
          obtain ⟨hm, -, hf, a, hx, hl⟩ := System.addressee_eq_some.mp h
          exact hk ⟨t, p, a, hk', hm, hf, hx, hl⟩
        simp [fedBytes, hto]
      · rfl
    rw [hnil, List.append_nil, htaken]

/-! ### The pipe to the main loop -/

/-- **The pipe to the main loop** is changed by nothing but posting, and reading a packet. -/
theorem Ops.same_pipe {T' : ATransport} (h : Ops (k.May e) w w')
    (hT : w.core.transports t = some T)
    (hT' : w'.core.transports t = some T') (hpost : ∀ m data, k ≠ .post t m data)
    (hreg : k ≠ .register t) (hp : ∀ p, k = .packet t p → p.addr ∉ addrs T.ioToMain) :
    T'.ioToMain = T.ioToMain := by
  refine h.invariant (I := fun v => ∀ T₁, v.core.transports t = some T₁ →
    T₁.ioToMain = T.ioToMain) (fun T₁ hT₁ => ?_) ?_ T' hT'
  · rw [Option.some.inj (hT₁.symm.trans hT)]
  rintro v o hv hg hm T₂ hT₂
  by_cases hun : ∃ T₀, o = .unregister t T₀
  · obtain ⟨T₀, rfl⟩ := hun
    simp [Op.effect, Core.putTransport] at hT₂
  rw [Op.apply_core, Op.effect_transports hg ?_ fun T₀ h => hun ⟨T₀, h⟩] at hT₂
  · obtain ⟨T₁, hT₁, rfl⟩ := Option.map_eq_some_iff.mp hT₂
    rw [← hv T₁ hT₁]
    cases o with
    | popMain t' T₀ q rest =>
        obtain rfl : k = .packet t' q := hm
        by_cases ht : t' = t
        · subst ht
          have hq : T₀.ioToMain = T.ioToMain := hv T₀ hg.1
          exact absurd (by rw [← hq, hg.2]; simp) (hp q rfl)
        · simp [Op.turn, ht]
    | post t' T₀ q =>
        have ht : t' ≠ t := fun h => hpost _ _ (h ▸ hm)
        simp [Op.turn, ht]
    | conn t' T₀ online state quals =>
        simp only [Op.turn]
        split <;> rfl
    | popIo t' T₀ q rest =>
        simp only [Op.turn]
        split <;> rfl
    | closePipes t' T₀ =>
        simp only [Op.turn]
        split <;> rfl
    | _ => rfl
  · rintro type rfl
    exact hreg hm

/-- What a packet says. -/
def APacket.content (p : APacket) : AMessage × List UInt8 := (p.msg, p.data)

/-- A packet that is posted. -/
theorem run_postToMain_content {m : AMessage} {data : List UInt8}
    (hT : s.core.transports t = some T) (h : s.run (postToMain t m data) = .ok s') :
    ∃ q : APacket, q.content = (m, data) ∧
      s'.core.transports t = some { T with ioToMain := T.ioToMain ++ [q] } := by
  have hwp : wp (postToMain t m data) (fun _ c' => ∃ q : APacket, q.content = (m, data) ∧
      c'.transports t = some { T with ioToMain := T.ioToMain ++ [q] })
        (fun _ => True) s.core := by
    rw [postToMain, wp_bind, wp_getApacket]
    refine (wp_modTransport_of (by exact hT)).mpr
      ⟨{ addr := s.core.nextPkt, msg := m, data := data }, rfl, ?_⟩
    simp [Core.putTransport]
  exact System.run_does hwp h

/-- The packet that an output thread puts into its pipe. -/
def System.posts (s : System) (b : Action) : List (TId × AMessage × List UInt8) :=
  match b with
  | .output _ _ false =>
      match s.task b with
      | .post t m data => [(t, m, data)]
      | _ => []
  | _ => []

/-- What was posted on `t`. -/
def postedOn (t : TId) (l : List (TId × AMessage × List UInt8)) :
    List (AMessage × List UInt8) :=
  (l.filter fun q => q.1 = t).map fun q => q.2

/-- What was handled on `t`. -/
def handledOn (t : TId) (rs : List Receipt) : List (AMessage × List UInt8) :=
  (rs.filter fun r => r.transport = t).map fun r => r.packet.content

theorem postedOn_append (l l' : List (TId × AMessage × List UInt8)) :
    postedOn t (l ++ l') = postedOn t l ++ postedOn t l' := by
  rw [postedOn, List.filter_append, List.map_append]
  rfl

theorem handledOn_append (rs rs' : List Receipt) :
    handledOn t (rs ++ rs') = handledOn t rs ++ handledOn t rs' := by
  rw [handledOn, List.filter_append, List.map_append]
  rfl

/-- A packet of `t` that a step handles is the first one of its pipe. -/
theorem step_handled {T' : ATransport} {io : Io} (hr : Reachable s)
    (hs : step s (.dispatch io) = .ok s') (hk : s.task (.dispatch io) = .packet t p)
    (hT : s.core.transports t = some T) (hT' : s'.core.transports t = some T') :
    T.ioToMain = p :: T'.ioToMain := by
  obtain ⟨c, hh⟩ := System.exists_handles hk
  have hrun := hh.step_eq.symm.trans hs
  have hw := hh.wf hr.wf
  obtain ⟨c₁, T₀, rest, hreads, hT₀, ho, hq, hc⟩ := hh
  rw [hreads.transports_eq] at hT₀
  obtain rfl := Option.some.inj (hT₀.symm.trans hT)
  have hcT : c.transports t = some { T₀ with ioToMain := rest } := by
    rw [hc]
    simp [Core.putTransport]
  have hopen : c.PipesOpen t := fun T₁ hT₁ => by
    obtain rfl := Option.some.inj (hcT.symm.trans hT₁)
    exact Core.pipesOpen_of_canRead ho
  have hnodup := hr.wf.pkts.nodup (.toMain t)
  simp only [Work.ledger, Work.held, hT, Option.elim_some, hq, addrs_cons,
    List.nodup_cons] at hnodup
  have hmem : p.addr ∈ (Work.mk c [p.addr]).hand := by simp
  obtain ⟨H, hops, -⟩ := System.run_does (Does.handlePacket hmem hopen hw) hrun
  have hsame := hops.same_pipe hcT hT' (by simp) (by simp) fun q hq => by
    obtain ⟨-, rfl⟩ := Task.packet.inj hq
    exact hnodup.1
  rw [hq, hsame]

/-- An output thread that posts. -/
theorem step_posted {T' : ATransport} {r : Option (AMessage × List UInt8)} {t' : TId}
    {m : AMessage} {data : List UInt8} (hs : step s (.output t' r false) = .ok s')
    (hk : s.task (.output t' r false) = .post t m data) (hT : s.core.transports t = some T)
    (hT' : s'.core.transports t = some T') :
    T'.ioToMain.map APacket.content = T.ioToMain.map APacket.content ++ [(m, data)] := by
  obtain ⟨l, hl, -, hs⟩ := step_outputThread hs
  have hpost {v : System} (hv : v.core = s.core) (h : v.run (postToMain t m data) = .ok s') :
      T'.ioToMain.map APacket.content = T.ioToMain.map APacket.content ++ [(m, data)] := by
    obtain ⟨q, hq, hT₁⟩ := run_postToMain_content (s := v) (by rw [hv]; exact hT) h
    obtain rfl := Option.some.inj (hT₁.symm.trans hT')
    simp [hq]
  rw [System.task, hl, Option.elim] at hk
  cases ho : l.out with
  | sync =>
      simp only [Life.outTask, ho, Task.post.injEq] at hk
      simp only [outputThread, ho, Bool.false_eq_true, if_false] at hs
      obtain ⟨rfl, rfl, rfl⟩ := hk
      exact hpost (by rfl) hs
  | pump =>
      simp only [Life.outTask, ho] at hk
      simp only [outputThread, ho, Bool.false_eq_true, if_false] at hs
      cases r with
      | none => cases hk
      | some q =>
          obtain ⟨m', data'⟩ := q
          dsimp only at hk hs
          split at hk
          · next hacc =>
            obtain ⟨rfl, rfl, rfl⟩ := Task.post.inj hk
            rw [if_pos hacc] at hs
            exact hpost rfl hs
          · cases hk
  | offline =>
      simp only [Life.outTask, ho, Task.post.injEq] at hk
      simp only [outputThread, ho, Bool.false_eq_true, if_false] at hs
      obtain ⟨rfl, rfl, rfl⟩ := hk
      exact hpost (by rfl) hs
  | kickTest | kickLock | kickCall | unref | done => simp [Life.outTask, ho] at hk

/-- An output thread that cannot post leaves the memory alone. -/
theorem step_unposted {r : Option (AMessage × List UInt8)} {t' : TId} {m : AMessage}
    {data : List UInt8} (hs : step s (.output t' r true) = .ok s')
    (hk : s.task (.output t' r true) = .post t m data) : s'.core = s.core := by
  obtain ⟨l, hl, -, hs⟩ := step_outputThread hs
  rw [System.task, hl, Option.elim] at hk
  cases ho : l.out with
  | sync | offline =>
      simp only [outputThread, ho, if_true] at hs
      obtain rfl := Except.ok.inj hs
      rfl
  | pump =>
      simp only [Life.outTask, ho] at hk
      simp only [outputThread, ho, if_true] at hs
      cases r with
      | none => cases hk
      | some q =>
          obtain ⟨m', data'⟩ := q
          dsimp only at hk hs
          split at hk
          · next hacc =>
            rw [if_pos hacc] at hs
            obtain rfl := Except.ok.inj hs
            rfl
          · cases hk
  | kickTest | kickLock | kickCall | unref | done => simp [Life.outTask, ho] at hk

/-- A transport that is in use is not registered again. -/
theorem step_registered {b : Action} (hr : Reachable s) (hs : step s b = .ok s')
    (hT : s.core.transports t = some T) : s.task b ≠ .register t := by
  intro hk
  obtain ⟨io, rfl⟩ := System.dispatch_of_task (s := s) (a := b) (by rw [hk]; trivial)
  obtain ⟨k, rest, -, htask, hcb⟩ := step_dispatch hs
  have hsame := (s.taken_callbackTask io k rest).trans htask.symm
  rcases callback_cases hcb with ⟨hne, -⟩ | ⟨m, rest', l, hpipe, -, hm⟩
  · exact (hne t).1 (hsame.trans hk)
  · rcases hm with ⟨hreg, hk', -⟩ | ⟨-, hk', -⟩
    · obtain rfl : m.transport = t := Task.register.inj (hk'.symm.trans (hsame.trans hk))
      have hnone := hr.lives.unregistered m (by
        rw [show s.regPipe = _ from hpipe]
        exact List.mem_cons_self ..) hreg
      rw [hT] at hnone
      cases hnone
    · cases hk'.symm.trans (hsame.trans hk)

/-- Only an output thread posts. -/
theorem System.output_of_task {b : Action} {m : AMessage} {data : List UInt8}
    (hk : s.task b = .post t m data) : ∃ t' r fails, b = .output t' r fails := by
  cases b with
  | register | select => cases hk
  | dispatch io =>
      rw [System.task] at hk
      split at hk
      · cases hk
      · next k _ _ =>
        have hmain := s.callbackTask_ofMain io k (s.core.loop.fdes k).events
        rw [hk] at hmain
        exact hmain.elim
  | output t' r fails => exact ⟨t', r, fails, rfl⟩
  | input t' fails =>
      rw [System.task] at hk
      cases hl : s.life t' with
      | none => simp [hl] at hk
      | some l =>
          simp only [hl, Option.elim] at hk
          cases hi : l.inp with
          | reading | closeAll | kickTest | kickLock | kickCall | unref | done =>
              rw [hi] at hk
              cases hk

/-- Steps that do not post. -/
theorem System.posts_of_task {b : Action} (h : ∀ m data, s.task b ≠ .post t m data) :
    postedOn t (s.posts b) = [] := by
  unfold System.posts
  split
  · split
    · next t₁ m data hk =>
      have hne : t₁ ≠ t := fun ht => h m data (ht ▸ hk)
      simp [postedOn, hne]
    · rfl
  · rfl

/-- Steps that do not handle a packet. -/
theorem System.receipts_of_task {b : Action} (h : ∀ p, s.task b ≠ .packet t p) :
    handledOn t (s.receipts b) = [] := by
  unfold System.receipts
  split
  · next t₁ p hk =>
    have hne : t₁ ≠ t := fun ht => h p (ht ▸ hk)
    simp [handledOn, hne]
  · rfl

/-- **A step takes packets out of the front of the pipe, and puts them in at its end.** -/
theorem step_pipe {T' : ATransport} {b : Action} (hr : Reachable s) (hs : step s b = .ok s')
    (hT : s.core.transports t = some T) (hT' : s'.core.transports t = some T') :
    T.ioToMain.map APacket.content ++ postedOn t (s.posts b) =
      handledOn t (s.receipts b) ++ T'.ioToMain.map APacket.content := by
  have hops := step_ops hr.wf hr.lives.unregistered hs
  by_cases hpk : ∃ p, s.task b = .packet t p
  · obtain ⟨p, hk⟩ := hpk
    obtain ⟨io, rfl⟩ := System.dispatch_of_task (s := s) (a := b) (by rw [hk]; trivial)
    rw [step_handled hr hs hk hT hT', System.receipts, hk]
    simp [System.posts, postedOn, handledOn]
  have hpk : ∀ p, s.task b ≠ .packet t p := fun p h => hpk ⟨p, h⟩
  rw [s.receipts_of_task hpk, List.nil_append]
  by_cases hpost : ∃ m data, s.task b = .post t m data
  · obtain ⟨m, data, hk⟩ := hpost
    obtain ⟨t', r, fails, rfl⟩ := System.output_of_task hk
    cases fails with
    | false =>
        rw [step_posted hs hk hT hT', System.posts, hk]
        simp [postedOn]
    | true =>
        obtain rfl : T = T' := Option.some.inj (hT.symm.trans (step_unposted hs hk ▸ hT'))
        simp [System.posts, postedOn]
  · have hpost : ∀ m data, s.task b ≠ .post t m data := fun m data h => hpost ⟨m, data, h⟩
    rw [s.posts_of_task hpost, List.append_nil,
      hops.same_pipe hT hT' hpost (step_registered hr hs hT) fun p hk => absurd hk (hpk p)]

/-- A thread that posts has its transport. -/
theorem System.transport_of_post {b : Action} {m : AMessage} {data : List UInt8}
    (hr : Reachable s) (hs : step s b = .ok s') (hk : s.task b = .post t m data) :
    s.core.transports t ≠ none := by
  obtain ⟨t', r, fails, rfl⟩ := System.output_of_task hk
  obtain ⟨l, hl, hst, -⟩ := step_outputThread hs
  rw [System.task, hl, Option.elim] at hk
  obtain rfl : t = t' := (Life.outTask_about (l := l) (r := r) (t := t) (by rw [hk]; rfl)).symm
  have htr := hr.lives.tracked t l hl
  have hout : l.out ≠ .done := fun h => by simp [Life.outTask, h] at hk
  exact htr.has.1.mpr ⟨hst, (htr.ok hst).alive (.inl hout)⟩

/-- A step after which a transport is gone. -/
theorem step_removed {b : Action} (hr : Reachable s) (hs : step s b = .ok s')
    (hT : s.core.transports t = some T) (hT' : s'.core.transports t = none) :
    s.task b = .register t ∨ s.task b = .remove t := by
  by_contra hne
  have hsame := ((step_ops hr.wf hr.lives.unregistered hs).otherTransport (t := t)
    (not_or.mp hne)).1.mp hT'
  simp [hT] at hsame

/-- Nothing is posted or handled on a transport that is not there. -/
theorem step_absent {b : Action} (hr : Reachable s) (hs : step s b = .ok s')
    (hT : s.core.transports t = none) :
    postedOn t (s.posts b) = [] ∧ handledOn t (s.receipts b) = [] := by
  refine ⟨s.posts_of_task fun m data hk => System.transport_of_post hr hs hk hT, ?_⟩
  refine s.receipts_of_task fun p hk => ?_
  obtain ⟨io, rfl⟩ := System.dispatch_of_task (s := s) (a := b) (by rw [hk]; trivial)
  obtain ⟨c, c₁, T, rest, hreads, hT', -⟩ := System.exists_handles hk
  rw [hreads.transports_eq, hT] at hT'
  cases hT'

/-- Nothing is posted or handled on a transport that is not there, or is gone afterwards. -/
theorem step_gone {b : Action} (hr : Reachable s) (hs : step s b = .ok s')
    (hgone : s.core.transports t = none ∨ s'.core.transports t = none) :
    postedOn t (s.posts b) = [] ∧ handledOn t (s.receipts b) = [] := by
  cases hT : s.core.transports t with
  | none => exact step_absent hr hs hT
  | some T =>
      have hk : s.task b = .register t ∨ s.task b = .remove t :=
        step_removed hr hs hT (hgone.resolve_left (by simp [hT]))
      refine ⟨s.posts_of_task fun m data h => ?_, s.receipts_of_task fun p h => ?_⟩
      all_goals
        rw [h] at hk
        rcases hk with hk | hk <;> cases hk

/-! ### What went through a pipe -/

/-- **What went into a pipe of `t` and came out of it**: what came out is the first part of
what went in, and the rest is in the pipe. -/
structure System.PipeLog {α : Type} (s : System) (t : TId) (pipe : ATransport → List α)
    (ins outs : List α) : Prop where
  taken : outs <+: ins
  waiting : ∀ T, s.core.transports t = some T → ins = outs ++ pipe T
  unused : (∀ l, s.life t = some l → l.started = false) → ins = [] ∧ outs = []

/-- A pipe before anything happened. -/
theorem System.PipeLog.init {α : Type} {pipe : ATransport → List α} :
    System.init.PipeLog t pipe [] [] where
  taken := List.prefix_rfl
  waiting T hT := absurd hT (by simp [System.init, Core.init])
  unused _ := ⟨rfl, rfl⟩

/-- **A step keeps the log of a pipe** that is first in, first out, is empty when its transport
is new, and is not used without one. -/
theorem System.PipeLog.step {α : Type} {pipe : ATransport → List α} {ins outs i o : List α}
    {b : Action} (h : s.PipeLog t pipe ins outs) (hr : Reachable s) (hs : step s b = .ok s')
    (hnew : ∀ l T, Life.link l T = Link.start → pipe T = [])
    (hfifo : ∀ T T', s.core.transports t = some T → s'.core.transports t = some T' →
      pipe T ++ i = o ++ pipe T')
    (hgone : s.core.transports t = none ∨ s'.core.transports t = none → i = [] ∧ o = []) :
    s'.PipeLog t pipe (ins ++ i) (outs ++ o) := by
  have hstarted (hno : ∀ l, s'.life t = some l → l.started = false) :
      ∀ l, s.life t = some l → l.started = false := by
    intro l hl
    by_contra hst
    obtain ⟨l', hl', hst'⟩ := step_started hr hs hl (by simpa using hst)
    simp [hno l' hl'] at hst'
  have hquiet (hi : i = [] ∧ o = [])
      (hw : ∀ T', s'.core.transports t = some T' → ins = outs ++ pipe T') :
      s'.PipeLog t pipe (ins ++ i) (outs ++ o) := by
    obtain ⟨rfl, rfl⟩ := hi
    rw [List.append_nil, List.append_nil]
    exact ⟨h.taken, hw, fun hno => h.unused (hstarted hno)⟩
  cases hT : s.core.transports t with
  | none =>
      refine hquiet (hgone (.inl hT)) fun T' hT' => ?_
      obtain ⟨l', -, hlink, hwait⟩ := step_link_start hr hs hT hT'
      obtain ⟨rfl, rfl⟩ := h.unused hwait
      rw [hnew l' T' hlink]
      rfl
  | some T =>
      cases hT' : s'.core.transports t with
      | none =>
          exact hquiet (hgone (.inr hT')) fun T' h' => absurd (hT'.symm.trans h') (by simp)
      | some T' =>
          have heq : ins ++ i = (outs ++ o) ++ pipe T' := by
            rw [h.waiting T hT, List.append_assoc, List.append_assoc, hfifo T T' hT hT']
          refine ⟨⟨_, heq.symm⟩, fun T₁ hT₁ => ?_, fun hno => ?_⟩
          · rw [heq, Option.some.inj (hT'.symm.trans hT₁)]
          · have hr' : Reachable s' := Trans.Runs.tail hr trivial hs
            have hnone := hr'.no_transport hno
            rw [hT'] at hnone
            cases hnone

/-! ### Recorded runs -/

/-- The daemon, with what its output threads posted, and what its main loop handled. -/
structure Recorded where
  system : System
  posted : List (TId × AMessage × List UInt8)
  receipts : List Receipt

namespace Recorded

variable {y y' : Recorded}

/-- The daemon when `fdevent_loop` starts. -/
def init : Recorded := ⟨System.init, [], []⟩

/-- A step of the daemon, and what it posts and handles. -/
def step (y : Recorded) (b : Action) : Except Stop Recorded :=
  match Adbd.step y.system b with
  | .ok s' => .ok ⟨s', y.posted ++ y.system.posts b, y.receipts ++ y.system.receipts b⟩
  | .error e => .error e

theorem step_ok {b : Action} (h : step y b = .ok y') : Adbd.step y.system b = .ok y'.system ∧
    y'.posted = y.posted ++ y.system.posts b ∧
      y'.receipts = y.receipts ++ y.system.receipts b := by
  rw [step] at h
  split at h
  · next s' hs =>
    obtain rfl := Except.ok.inj h
    exact ⟨hs, rfl, rfl⟩
  · cases h

/-- A run of the daemon, recorded. -/
abbrev Run (y : Recorded) : Prop := Trans.Runs step (fun _ _ => True) init y

theorem Run.reachable (h : y.Run) : Reachable y.system := by
  induction h with
  | refl => exact .refl
  | tail _ _ hs ih => exact .tail ih trivial (step_ok hs).1

/-- Every run of the daemon can be recorded. -/
theorem exists_run (h : Reachable s) : ∃ posted receipts, Run ⟨s, posted, receipts⟩ := by
  induction h with
  | refl => exact ⟨[], [], .refl⟩
  | @tail s₁ s₂ b _ _ hs ih =>
      obtain ⟨posted, receipts, hrun⟩ := ih
      have hstep : step ⟨s₁, posted, receipts⟩ b =
          .ok ⟨s₂, posted ++ s₁.posts b, receipts ++ s₁.receipts b⟩ := by
        rw [step, hs]
      exact ⟨_, _, hrun.tail trivial hstep⟩

/-- The packets of a transport keep their order in every run. -/
theorem Run.pipe (h : y.Run) (t : TId) : y.system.PipeLog t
    (·.ioToMain.map APacket.content) (postedOn t y.posted) (handledOn t y.receipts) := by
  induction h with
  | refl => exact .init
  | tail hrun _ hs ih =>
      obtain ⟨hs, hposted, hreceipts⟩ := step_ok hs
      have hr := Run.reachable hrun
      rw [hposted, hreceipts, postedOn_append, handledOn_append]
      refine ih.step hr hs (fun l T hlink => ?_) (fun T T' hT hT' => step_pipe hr hs hT hT')
        fun hgone => step_gone hr hs hgone
      rw [List.map_eq_nil_iff.mp (congrArg Link.toMain hlink : T.ioToMain.map (·.msg) = [])]
      rfl

/-- What was taken for a socket is what was handed to it. -/
theorem Run.taken (h : y.Run) (x : SockId) : y.system.core.Balanced x ∧
    takenBytes (y.system.core.about x) = fedBytes x y.receipts := by
  induction h with
  | refl =>
      refine ⟨⟨List.prefix_rfl, fun a ha => ?_⟩, rfl⟩
      exact absurd ha (by simp [init, System.init, Core.init])
  | tail hrun _ hs ih =>
      obtain ⟨hs, -, hreceipts⟩ := step_ok hs
      obtain ⟨hb, htaken⟩ := step_taken (Run.reachable hrun) hs ih.1
      exact ⟨hb, by rw [htaken, ih.2, hreceipts, fedBytes_append]⟩

end Recorded

/-- **What a remote sends arrives**, in every interleaving of the threads and the main loop and
whatever the remotes send. On every transport the packets handled are the first of those its
output thread posted, in their order, and the others wait in its pipe. What was written to the
descriptor of a local socket is the first part of the payloads of the `WRTE`s handled for it,
with nothing lost, repeated or reordered, and while the socket is there the rest is in its
queue. The pipes of a transport and the descriptor of a socket are its own, and the `OKAY` and
`FAIL` that smart-socket code writes to a client are no bytes of a queue. -/
theorem stream_download {y : Recorded} (h : y.Run) :
    (∀ t, handledOn t y.receipts <+: postedOn t y.posted ∧
      ∀ T, y.system.core.transports t = some T →
        postedOn t y.posted = handledOn t y.receipts ++ T.ioToMain.map APacket.content) ∧
    ∀ x, writtenBytes (y.system.core.about x) <+: fedBytes x y.receipts ∧
      ∀ a, y.system.core.sockets x = some a → a.kind.isLocal = true →
        fedBytes x y.receipts = writtenBytes (y.system.core.about x) ++ unwritten a.queue := by
  refine ⟨fun t => ⟨(h.pipe t).taken, (h.pipe t).waiting⟩, fun x => ?_⟩
  obtain ⟨hb, htaken⟩ := h.taken x
  rw [← htaken]
  exact ⟨hb.written, hb.queued⟩

/-- Replaying actions shows that a recorded state is reached. -/
theorem Recorded.exists_of (as : List Action) {P : Recorded → Bool}
    (h : (Trans.follow Recorded.step (fun _ _ => true) Recorded.init as).any P = true) :
    ∃ y : Recorded, y.Run ∧ P y = true :=
  Trans.exists_runs as (fun _ _ _ => trivial) h

/-- A shell takes one byte of two, and the other waits in the queue. -/
theorem stream_download_shell : ∃ (y : Recorded) (a : ASocket), y.Run ∧
    y.system.core.sockets 0 = some a ∧ a.kind.isLocal = true ∧
    writtenBytes (y.system.core.about 0) = [65] ∧ unwritten a.queue = [66] ∧
    fedBytes 0 y.receipts = [65, 66] := by
  obtain ⟨y, hy, hP⟩ := Recorded.exists_of
    (connect 0 .usb ++ openShell 0 5 7 ++
      receive 0 A_WRTE 5 1 [65, 66] { writes := [.wrote 1, .eagain] })
    (P := fun y => (y.system.core.sockets 0).any (fun a =>
      a.kind.isLocal && unwritten a.queue == [66]) &&
        writtenBytes (y.system.core.about 0) == [65]) (by decide +kernel)
  obtain ⟨hP₁, hP₂⟩ := (Bool.and_eq_true _ _).mp hP
  obtain ⟨a, hx, hk⟩ := (Option.any_eq_true _ _).mp hP₁
  obtain ⟨hl, hq⟩ : a.kind.isLocal = true ∧ unwritten a.queue = [66] := by simpa using hk
  have hw : writtenBytes (y.system.core.about 0) = [65] := by simpa using hP₂
  refine ⟨y, a, hy, hx, hl, hw, hq, ?_⟩
  rw [((stream_download hy).2 0).2 a hx hl, hw, hq]
  rfl

end Adbd
