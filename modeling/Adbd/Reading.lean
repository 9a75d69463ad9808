import Adbd.Handlers

/-!
# Reading from a Local Socket

The `FDE_READ` branch of `local_socket_event_func` as a sequence of operations. What was
read goes to the peer: a remote socket sends it, a smart socket collects it until a
service request is complete and then connects its client.

## Main results

* `Does.smartEnqueue`: `smart_socket_enqueue`.
* `Does.readEvent`: the `FDE_READ` branch.
-/

namespace Adbd

open Program Custody

variable {c c₀ : Core} {s ss : SockId} {a b : ASocket} {E : Fault → Prop} {w : Work}

/-! ### Choosing a transport -/

/-- `acquire_one_transport` only reads. -/
theorem wp_acquireOneTransport {Q : Option TId × FailReason → Core → Prop} (hQ : ∀ r, Q r c)
    (hE : ∀ t, E (.staleTransport t)) : wp acquireOneTransport Q E c := by
  have walk (l : List TId) (r : Option TId) (e : FailReason)
      {Q : Option TId × FailReason → Core → Prop} (hQ : ∀ r, Q r c) :
      wp (acquireFrom l r e) Q E c := by
    induction l generalizing r e with
    | nil => exact hQ _
    | cons t l ih =>
        simp only [acquireFrom, wp_bind, wp_getTransport]
        refine ⟨fun T _ => ?_, fun _ => hE t⟩
        split
        · exact ih _ _
        · cases r with
          | some _ => exact hQ _
          | none => exact ih _ _
  rw [acquireOneTransport, wp_bind, wp_get, wp_bind]
  refine walk _ _ _ fun r => ?_
  obtain ⟨t, err⟩ := r
  cases t with
  | none => exact hQ _
  | some t =>
      simp only [wp_bind, wp_getTransport]
      refine ⟨fun T _ => ?_, fun _ => hE t⟩
      split
      · exact hQ _
      · exact hQ _

/-- The choice of a transport only reads. -/
theorem Does.smartTransport {β : Type} {P : Work → Op → Prop} {R : β → Work → Prop}
    {f : Option TId × FailReason → M β} (hb : w.core.sockets ss = some b)
    (h : ∀ r, Does P w (f r) R) : Does P w (smartSocketTransport ss >>= f) R := by
  intro hw
  rw [smartSocketTransport, wp_bind, wp_bind]
  refine (wp_getSock_of hb).mpr ?_
  cases b.transport with
  | some t => exact h _ hw
  | none => exact wp_acquireOneTransport (fun r => h r hw) fun t => Does.excused trivial

/-! ### Connecting a client -/

/-- The `OPEN` packet `connect_to_remote` sends. -/
def openPacket (arg0 : UInt32) (destination : List UInt8) (addr : Nat) : APacket :=
  APacket.finish
    { addr := addr
      msg := { command := A_OPEN, arg0 := arg0,
               dataLength := UInt32.ofNat (destination.length + 1) }
      data := destination ++ [0] }

/-- The memory after a smart socket rigged its client, sent the request and went away. -/
theorem Core.rig_eq (hne : ss ≠ s) {t : TId} {T : ATransport} (p : Nat → APacket) :
    ((((((c.putSock s (some { a with kind := .localNotify, peer := none, transport := some t })
      ).newPkt.push t T (p c.nextPkt)).note (.sent t none (p c.nextPkt).msg)).putSock ss
      (some { b with peer := none })).freePkts (addrs b.queue.head?.toList)).putSock ss none) =
        c.rig s a ss b t T p := by
  apply Core.ext
  case sockets =>
    funext x
    by_cases hx : x = ss
    · simp [hx, Core.putSock, Core.rig, hne]
    · simp [hx, Core.putSock, Core.rig, Core.freePkts, Core.note, Core.push, Core.putTransport,
        Core.newPkt, Function.update_apply]
  case livePkts =>
    funext x
    simp [Core.putSock, Core.rig, Core.freePkts, Core.note, Core.push, Core.putTransport,
      Core.newPkt, Function.update_apply, addrs]
  all_goals rfl

/-- `close` of a smart socket that was detached from its client. -/
theorem wp_closeSmart_detached {Q : Unit → Core → Prop} {n : Nat} (hb : c.sockets ss = some b)
    (hk : b.kind = .smartSocket) (hp : b.peer = none)
    (hl : ∀ x ∈ addrs b.queue.head?.toList, c.livePkts x = true)
    (hQ : Q () ((c.freePkts (addrs b.queue.head?.toList)).putSock ss none)) :
    wp (callCloseDepth (n + 1) ss) Q E c := by
  rw [callCloseDepth, callCloseWith, wp_bind]
  refine (wp_getSock_of hb).mpr ?_
  rw [hk]
  simp only [smartSocketClose]
  rw [wp_bind]
  refine (wp_getSock_of hb).mpr ?_
  rw [wp_bind, wp_putApackets (by cases b.queue.head? <;> simp) hl, hp]
  exact (wp_freeSock_of (by exact hb)).mpr hQ

/-- The end of `smart_socket_enqueue`: the client is rigged, its request sent, and the smart
socket goes away with the packet it collected. -/
theorem wp_smartConnect {Q : Int → Core → Prop} {t : TId} {dest : List UInt8}
    (hs : c.sockets s = some a) (hb : c.sockets ss = some b) (hk : b.kind = .smartSocket)
    (hp : b.peer = some s) (hne : ss ≠ s)
    (hl : ∀ x ∈ addrs b.queue.head?.toList, c.livePkts x = true ∧ x ≠ c.nextPkt)
    (hlong : dest.length + 1 > MAX_PAYLOAD - 1 → E .fatal)
    (hT : c.transports t = none → E (.staleTransport t))
    (hE : ∀ T, c.transports t = some T → c.canWrite t T = false → E (.closedPipe t))
    (hQ : ∀ T, c.transports t = some T → Q 1 (c.rig s a ss b t T (openPacket a.id dest))) :
    wp (smartSocketConnect ss t dest) Q E c := by
  rw [smartSocketConnect, wp_bind, Adbd.peerOf, wp_bind]
  refine (wp_getSock_of hb).mpr ?_
  rw [hp]
  simp only [wp_pure]
  rw [wp_bind]
  refine (wp_modSock_of hs).mpr ?_
  rw [wp_bind, connectToRemote, wp_bind]
  refine (wp_getSock_of
    (a := { a with kind := .localNotify, peer := none, transport := some t })
    (by simp [Core.putSock])).mpr ?_
  rw [wp_bind, wp_getApacket, wp_ite]
  refine ⟨fun h => hlong h, fun _ => ?_⟩
  rw [wp_sendPacket]
  refine ⟨fun T hT => ?_, fun hn => hT hn⟩
  split
  · rw [wp_bind]
    refine (wp_modSock_of (a := b) ?_).mpr ?_
    · simp [Core.note, Core.push, Core.putTransport, Core.newPkt, Core.putSock, hne, hb]
    rw [wp_bind]
    refine wp_closeSmart_detached (n := 2) (b := { b with peer := none })
      (by simp [Core.putSock])
      hk rfl (fun x hx => ?_) ?_
    · obtain ⟨hlive, hxn⟩ := hl x hx
      simp [Core.putSock, Core.note, Core.push, Core.putTransport, Core.newPkt, hxn, hlive]
    · exact (congrArg (Q 1) (Core.rig_eq hne (openPacket a.id dest))).mpr (hQ T hT)
  · next ho => exact hE T hT (eq_false_of_ne_true ho)

/-- The end of `smart_socket_enqueue`, as an operation. -/
theorem Does.smartConnect {k : Task} {t : TId} {dest : List UInt8}
    (hs : w.core.sockets s = some a) (hp : a.peer = some ss) (hb : w.core.sockets ss = some b)
    (hk : b.kind = .smartSocket)
    (hP : ∀ T, w.core.transports t = some T →
      k.May c₀ w (.rig s a ss b t T (openPacket a.id dest))) :
    Does (k.May c₀) w (smartSocketConnect ss t dest) fun r w' =>
      r = 1 ∧ w'.hand = w.hand ∧
        w'.core.sockets s =
          some { a with kind := .localNotify, peer := none, transport := some t } := by
  intro hw
  obtain ⟨b', hb', hpb, -⟩ := hw.graph.peer hs hp
  obtain rfl : b = b' := Option.some.inj (hb.symm.trans hb')
  have hne : ss ≠ s := hw.graph.peer_ne hs hp
  refine wp_smartConnect hs hb hk hpb hne (fun x hx => ?_) (fun _ => Does.excused trivial)
    (fun _ => Does.excused trivial)
    (fun T hT ho => Does.excused ⟨T, hT, ho, fun _ => .inr (hP T hT).2.2.1⟩) fun T hT => ?_
  · have hx' : x ∈ addrs b.queue := by
      cases hq : b.queue with
      | nil => simp [hq] at hx
      | cons p q => simp_all
    have hl := hw.live_queue (H := w.hand) hb x hx'
    exact ⟨hl, hw.ne_nextPkt (H := w.hand) hl⟩
  · have hgd : Op.Guard w (.rig s a ss b t T (openPacket a.id dest)) :=
      ⟨hs, hp, hb, hk, hpb, hT, fun _ => rfl⟩
    refine Does.one (r := (1 : Int)) (Q := fun r w' => r = 1 ∧ w'.hand = w.hand ∧
      w'.core.sockets s =
        some { a with kind := .localNotify, peer := none, transport := some t })
      _ hgd (hP T hT) rfl ⟨rfl, rfl, ?_⟩
    simp [Op.effect, Core.rig]

/-! ### smart_socket_enqueue -/

/-- What a client of a smart socket looks like after `smart_socket_enqueue` returned `r`. -/
def SmartResult (s : SockId) (a : ASocket) (r : Int) (c : Core) : Prop :=
  r = -1 ∨ (r = 0 ∧ c.sockets s = some a) ∨
    (r = 1 ∧ ∃ t, c.sockets s =
      some { a with kind := .localNotify, peer := none, transport := some t })

/-- The label `fail:` closes the client. -/
theorem Does.smartFail (hb : w.core.sockets ss = some b) (hk : b.kind = .smartSocket)
    (hp : b.peer = some s) :
    Does ((Task.read s).May c₀) w (smartSocketFail ss)
      fun r w' => w'.hand = w.hand ∧ SmartResult s a r w'.core := by
  refine .wf fun hw => ?_
  rw [smartSocketFail]
  refine .bind (Does.closeFar hb (by simp [hk, SockKind.isEnd]) fun s' a' l hs' hp' =>
    ⟨by simp, .inl ?_⟩) ?_
  · obtain rfl : s = s' := Option.some.inj (hp.symm.trans hp')
    obtain ⟨d, hd, -, hf⟩ := hw.graph.peer hb hp
    obtain rfl : d = a' := Option.some.inj (hd.symm.trans hs')
    refine ⟨rfl, ?_⟩
    revert hf
    rw [hk]
    cases d.kind <;> simp [SockKind.Faces, SockKind.isEnd]
  · rintro _ w' ⟨s', a', l, -, -, rfl⟩
    exact .pure ⟨rfl, .inl rfl⟩

/-- Refusing a request closes the client, too. -/
theorem Does.smartRefuse (hs : w.core.sockets s = some a) (hb : w.core.sockets ss = some b)
    (hk : b.kind = .smartSocket) (hp : b.peer = some s) {err : FailReason} :
    Does ((Task.read s).May c₀) w (smartSocketRefuse ss err)
      fun r w' => w'.hand = w.hand ∧ SmartResult s a r w'.core := by
  rw [smartSocketRefuse]
  refine .peerOf hb hp (.getSock hs ?_)
  exact .op (r := ()) (.note (.failMsg a.fd err)) (fun _ => rfl) trivial rfl
    (.smartFail hb hk hp)

/-- The second part of `smart_socket_enqueue`. -/
theorem Does.smartDecode {p : APacket} {b₀ : ASocket} (hs : w.core.sockets s = some a)
    (hp : a.peer = some ss) (hb : w.core.sockets ss = some b) (hk : b.kind = .smartSocket)
    (hs₀ : c₀.sockets s = some a) (hb₀ : c₀.sockets ss = some b₀)
    (hc : collected b₀.queue c₀.gets = some (p.len, p.data)) :
    Does ((Task.read s).May c₀) w (smartSocketDecode ss p)
      fun r w' => w'.hand = w.hand ∧ SmartResult s a r w'.core := by
  refine .wf fun hw => ?_
  obtain ⟨b', hb', hpb, -⟩ := hw.graph.peer hs hp
  obtain rfl : b = b' := Option.some.inj (hb.symm.trans hb')
  have hne : ss ≠ s := hw.graph.peer_ne hs hp
  rw [smartSocketDecode]
  by_cases h4 : p.len < 4
  · rw [if_pos h4]
    exact .pure ⟨rfl, .inr (.inl ⟨rfl, hs⟩)⟩
  rw [if_neg h4]
  dsimp only
  by_cases hlen : (unhex (p.data.take 4)).toNat < 1 ∨ (unhex (p.data.take 4)).toNat > 1024
  · rw [if_pos hlen]
    exact .smartFail hb hk hpb
  rw [if_neg hlen]
  by_cases hmore : (unhex (p.data.take 4)).toNat + 4 > p.len
  · rw [if_pos hmore]
    exact .pure ⟨rfl, .inr (.inl ⟨rfl, hs⟩)⟩
  rw [if_neg hmore]
  have hreq : Requested (p.len, p.data) := by
    simp only [Requested]
    omega
  refine .smartTransport hb fun r => ?_
  obtain ⟨t, err⟩ := r
  refine .op (r := ()) (.choose ss b t) (fun _ => ⟨hb, hk⟩) ⟨s, a, rfl, hs₀, hp⟩
    (modSock_eq hb) ?_
  have hs' : ((Op.choose ss b t).apply w).core.sockets s = some a := by
    simpa [Op.effect, Core.putSock, hne.symm] using hs
  have hb' : ((Op.choose ss b t).apply w).core.sockets ss =
    some { b with transport := t } := by
    simp [Op.effect, Core.putSock]
  cases t with
  | none => exact .smartRefuse hs' hb' hk hpb
  | some t =>
      refine .getTransport fun T hT => ?_
      by_cases hoff : T.connectionState = .offline
      · rw [if_pos hoff]
        exact .smartRefuse hs' hb' hk hpb
      · rw [if_neg hoff]
        refine (Does.smartConnect hs' hp hb' hk fun T' hT' => ?_).mono ?_
        · obtain rfl : T = T' := Option.some.inj (hT.symm.trans hT')
          exact ⟨rfl, hs₀, hoff, fun _ => rfl, b₀, _, hb₀, hc, hreq⟩
        · rintro r w' - ⟨rfl, hh, hs''⟩
          exact ⟨hh, .inr (.inr ⟨rfl, t, hs''⟩)⟩

/-- The first part of `smart_socket_enqueue`. -/
theorem Does.smartCollect {p : APacket} (hs : w.core.sockets s = some a)
    (hp : a.peer = some ss) (hb : w.core.sockets ss = some b) (hk : b.kind = .smartSocket)
    (hs₀ : c₀.sockets s = some a) (hm : p.addr ∈ w.hand)
    (hd : p.data = c₀.gets) (hl : p.len = c₀.gets.length) :
    Does ((Task.read s).May c₀) w (smartSocketCollect ss p)
      fun r w' => w'.hand = w.hand.erase p.addr ∧ w'.core.sockets s = some a ∧
        ∃ q, w'.core.sockets ss = some { b with queue := q } ∧
          ∀ p', r = some p' → collected b.queue c₀.gets = some (p'.len, p'.data) := by
  refine .wf fun hw => ?_
  have hne : ss ≠ s := hw.graph.peer_ne hs hp
  have hmay : ∃ x d, Task.read s = .read x ∧ c₀.sockets x = some d ∧ d.peer = some ss :=
    ⟨s, a, rfl, hs₀, hp⟩
  have hput (q : List APacket) :
      (w.core.putSock ss (some { b with queue := q })).sockets s = some a ∧
      (w.core.putSock ss (some { b with queue := q })).sockets ss =
        some { b with queue := q } :=
    ⟨by simpa [Core.putSock, hne.symm] using hs, by simp [Core.putSock]⟩
  rw [smartSocketCollect]
  refine .getSock hb ?_
  split
  · -- the first packet is kept as it is
    next hq =>
    refine .op (r := ()) (.collectFirst ss b p) (fun _ => ⟨hb, hk, hq, hm⟩) hmay
      (modSock_eq hb) ?_
    refine .pure ⟨rfl, (hput [p]).1, [p], (hput [p]).2, fun p' hp' => ?_⟩
    obtain rfl := Option.some.inj hp'
    simp [hq, collected, hd, hl]
  · next p₀ q hq =>
    have hnil : q = [] := by
      have hsh := (hw.graph.shape hb).queue
      simp only [hk, hq, SockKind.isLocal, List.length_cons] at hsh
      simpa using hsh
    subst hnil
    by_cases hlong : p₀.len + p.len > MAX_PAYLOAD
    · rw [if_pos hlong]
      refine .putApacket hm trivial (.pure ⟨rfl, hs, b.queue, hb, ?_⟩)
      simp
    · rw [if_neg hlong]
      dsimp only
      refine .op (r := ()) (.collectMore ss b { p₀ with
        data := p₀.data.take p₀.len ++ p.data.take p.len, len := p₀.len + p.len })
        (fun _ => ⟨hb, hk, by simp [hq]⟩) hmay (modSock_eq hb) ?_
      refine .putApacket hm trivial (.pure ⟨rfl, (hput _).1, _, (hput _).2, fun p' hp' => ?_⟩)
      obtain rfl := Option.some.inj hp'
      rw [hl] at hlong
      simp [hq, collected, hd, hl, hlong]

/-- **`smart_socket_enqueue`** of what was read from the client. -/
theorem Does.smartEnqueue {p : APacket} (hs : w.core.sockets s = some a)
    (hp : a.peer = some ss) (hb : w.core.sockets ss = some b) (hk : b.kind = .smartSocket)
    (hs₀ : c₀.sockets s = some a) (hb₀ : c₀.sockets ss = some b) (hm : p.addr ∈ w.hand)
    (hd : p.data = c₀.gets) (hl : p.len = c₀.gets.length) :
    Does ((Task.read s).May c₀) w (smartSocketEnqueue ss p)
      fun r w' => w'.hand = w.hand.erase p.addr ∧ SmartResult s a r w'.core := by
  refine .wf fun hw => ?_
  obtain ⟨b', hb', hpb, -⟩ := hw.graph.peer hs hp
  obtain rfl : b = b' := Option.some.inj (hb.symm.trans hb')
  rw [smartSocketEnqueue]
  refine .bind (Does.smartCollect hs hp hb hk hs₀ hm hd hl) ?_
  rintro r w' ⟨hh, hs', q, hb', hc⟩
  rw [← hh]
  cases r with
  | none => exact .smartFail hb' hk hpb
  | some p' => exact .smartDecode hs' hp hb' hk hs₀ hb₀ (hc p' rfl)

/-! ### The FDE_READ branch -/

/-- A value of `r` that is `0` after the read loop is an end of file. -/
theorem readLoop_zero (rs : List ReadRes) (n : Nat) (got : List UInt8) :
    (readLoop rs n got).2.2 = 0 → (readLoop rs n got).2.1 = true := by
  induction rs, n, got using readLoop.induct with
  | case1 | case2 | case3 | case4 | case5 | case6 => simp [readLoop]
  | case7 avail got b bs rs ih => rw [readLoop]; exact ih

/-- The end of the `FDE_READ` branch: an end of file closes the socket. -/
theorem Does.readEnd {isEof : Bool} {r : Int} (hs : w.core.sockets s = some a)
    (hk : a.kind.isEnd = true) (he : isEof = true → c₀.meetsEof = true)
    (hr : r = 0 → isEof = true ∨ a.peer ≠ none) :
    Does ((Task.read s).May c₀) w (localSocketEof s isEof r) fun _ w' => w'.hand = w.hand := by
  rw [localSocketEof]
  refine .get ?_
  split
  · next h =>
    have hcond : c₀.meetsEof = true ∨ a.peer ≠ none := by
      rcases h with ⟨-, h0⟩ | h
      · exact (hr h0).imp he id
      · exact .inl (he h)
    refine (Does.closeEnd (v := .eof) hs hk (.inr rfl) fun l => ⟨rfl, hcond⟩).mono ?_
    rintro _ w' - ⟨l, rfl⟩
    rfl
  · exact .pure rfl

theorem localSocketPass_some {p : APacket} {got : List UInt8} {q : SockId} {r : Int}
    (hg : got ≠ []) : localSocketPass s p got (some q) r = (do
      let r ← callEnqueue q { p with data := got, len := got.length }
      if r > 0 then modLoop (·.fdeventDel (.sock s) Events.onlyRead) else pure ()
      pure r) := by
  cases got with
  | nil => exact absurd rfl hg
  | cons x l => rfl

theorem localSocketPass_none {p : APacket} {got : List UInt8} {peer : Option SockId} {r : Int}
    (h : got = [] ∨ peer = none) : localSocketPass s p got peer r = (do
      putApacket p
      pure r) := by
  cases got with
  | nil => rfl
  | cons x l =>
      obtain rfl : peer = none := by simpa using h
      rfl

/-- What the `FDE_READ` branch leaves of the socket after it passed on what it read: unless
the return is negative the socket is still there, and if the return is `0` it has a peer. -/
def PassResult (s : SockId) (r : Int) (c : Core) : Prop :=
  0 ≤ r → ∃ a, c.sockets s = some a ∧ a.kind.isEnd = true ∧ (r = 0 → a.peer ≠ none)

/-- Handing what was read to the peer. -/
theorem Does.pass {p : APacket} {got : List UInt8} {q : SockId} {r : Int}
    (hs : w.core.sockets s = some a) (hl : a.kind.isLocal = true) (hp : a.peer = some q)
    (hg : got ≠ []) (hgets : got = c₀.gets) (hm : p.addr ∈ w.hand)
    (hs₀ : w.core.sockets = c₀.sockets)
    (hi : (w.core.loop.fdes (.sock s)).interest = (c₀.loop.fdes (.sock s)).interest)
    (hlog : w.core.log = c₀.log) :
    Does ((Task.read s).May c₀) w (localSocketPass s p got (some q) r)
      fun r w' => w'.hand = w.hand.erase p.addr ∧ PassResult s r w'.core := by
  refine .wf fun hw => ?_
  have hk : a.kind = .localSocket := hw.graph.localSocket_of_peer hs hl hp
  obtain ⟨b, hb, hpb, hf⟩ := hw.graph.peer hs hp
  rw [localSocketPass_some hg]
  by_cases hkr : b.kind = .remoteSocket
  · -- a remote socket sends it, and reading stops until the next OKAY
    obtain ⟨t, T, hr⟩ := hw.graph.remoteOf hs hp hb hkr
    have hop : Op.Guard w (.readWrte s a t T
        (wrtePacket { p with data := got, len := got.length } a.id b.id)) :=
      ⟨hs, hk, hr.live, hm, rfl, q, b, hp, hb, hkr, hr.transport⟩
    have hmay : (Task.read s).May c₀ w (.readWrte s a t T
        (wrtePacket { p with data := got, len := got.length } a.id b.id)) :=
      ⟨rfl, hs₀ ▸ hs, hgets ▸ hg, hi, hlog⟩
    intro hw
    rw [wp_bind]
    refine wp_enqueue_remote hr ?_ fun ho =>
      Does.excused ⟨T, hr.live, ho,
        fun _ => hw.graph.inUse hr.sock hr.kind hr.transport hr.live⟩
    refine ⟨w.hand.erase p.addr, Ops.one _ hop hmay, rfl, fun _ => ⟨a, hs, ?_, by simp⟩⟩
    simp [hk, SockKind.isEnd]
  · -- a smart socket collects it
    have hks : b.kind = .smartSocket := by
      revert hf hkr
      rw [hk]
      cases b.kind <;> simp [SockKind.Faces]
    have hcall : Does ((Task.read s).May c₀) w
        (callEnqueue q { p with data := got, len := got.length })
        fun r w' => w'.hand = w.hand.erase p.addr ∧ SmartResult s a r w'.core := by
      rw [callEnqueue]
      refine .getSock hb ?_
      rw [hks]
      exact .smartEnqueue hs hp hb hks (hs₀ ▸ hs) (hs₀ ▸ hb) hm hgets (by simp [hgets])
    refine .bind hcall ?_
    rintro r w' ⟨hh, rfl | ⟨rfl, hs'⟩ | ⟨rfl, t, hs'⟩⟩
    · exact .pure ⟨hh, fun h => absurd h (by decide)⟩
    · exact .pure ⟨hh, fun _ => ⟨a, hs', by simp [hk, SockKind.isEnd], by simp [hp]⟩⟩
    · refine .op (r := ()) (.readOff s) (fun _ => ⟨_, hs', rfl⟩) rfl rfl ?_
      exact .pure ⟨hh, fun _ => ⟨_, hs', rfl, by simp⟩⟩

/-- **The `FDE_READ` branch of `local_socket_event_func`.** -/
theorem Does.readEvent (hs : w.core.sockets s = some a) (hl : a.kind.isLocal = true) :
    Does ((Task.read s).May w.core) w (localSocketReadEvent s) fun _ w' =>
      w'.hand = w.hand := by
  have hend : a.kind.isEnd = true := by
    revert hl
    cases a.kind <;> simp [SockKind.isLocal, SockKind.isEnd]
  rw [localSocketReadEvent]
  refine .op (r := { addr := w.core.nextPkt }) .newPkt (fun _ => trivial) trivial rfl ?_
  refine .get (.getSock hs ?_)
  have hgets : (readLoop w.core.io.reads MAX_PAYLOAD []).1 = w.core.gets := rfl
  have heof : (readLoop w.core.io.reads MAX_PAYLOAD []).2.1 = w.core.meetsEof := rfl
  have hzero := readLoop_zero w.core.io.reads MAX_PAYLOAD []
  have hio : (Op.newPkt.apply w).core.io = w.core.io := rfl
  rw [hio]
  generalize readLoop w.core.io.reads MAX_PAYLOAD [] = x at hgets heof hzero ⊢
  obtain ⟨got, isEof, r⟩ := x
  dsimp only at hgets heof hzero ⊢
  by_cases h : got = [] ∨ a.peer = none
  · have hno (r : Int) : ¬(got ≠ [] ∧ a.peer ≠ none ∧ r < 0) := by
      rintro ⟨hg, hp, -⟩
      exact h.elim hg hp
    simp only [localSocketPass_none h, hno, if_false, bind_assoc, pure_bind]
    refine .putApacket (by simp [Op.handle]) trivial ?_
    refine (Does.readEnd (by exact hs) hend (fun he => heof ▸ he) fun h0 =>
      .inl (hzero h0)).mono ?_
    rintro _ w' - hh
    rw [hh]
    simp [Op.handle]
  · rw [not_or] at h
    obtain ⟨q, hp⟩ := Option.ne_none_iff_exists'.mp h.2
    rw [hp]
    refine .bind (Does.pass hs hl hp h.1 hgets (by simp [Op.handle]) rfl rfl rfl) ?_
    rintro r' w' ⟨hh, hres⟩
    have hh' : w'.hand = w.hand := by simpa [Op.handle] using hh
    split
    · exact .pure hh'
    · next hneg =>
      obtain ⟨a', hs', hk', hp'⟩ := hres (by simpa [h.1] using hneg)
      exact (Does.readEnd hs' hk' (fun he => heof ▸ he) fun h0 => .inr (hp' h0)).mono
        fun _ _ _ hh'' => hh''.trans hh'

end Adbd
