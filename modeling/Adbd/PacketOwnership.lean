import Adbd.Custody
import Adbd.SocketGraph

/-!
# Who Owns a Packet

Every packet `get_apacket` returned is with the running handler, in the queue of a socket
or in one of the two pipes of a transport. `Work.ledger` reads the holders off the memory,
and every operation keeps the books of `Adbd.Custody` in order: no packet ever has two
owners, and none is freed that is not owned. All operations but two also lose nothing: the
exceptions are the one that drops a packet (`Op.lose`) and the one that frees a transport,
which takes whatever is in its pipes with it.

## Main definitions

* `Owner`, `Work.held`, `Work.ledger`: the holders of packets and what they hold.
* `Op.Lossless`: the operations that lose nothing.

## Main results

* `Op.conserves`: a lossless operation keeps the books in order and loses nothing.
* `Op.keeps`: every operation keeps the books in order.
-/

namespace Adbd

open Custody

/-- Where a packet can be: with the running handler, in the queue of a socket, or in a
pipe of a transport. -/
inductive Owner
  | hand
  | queue (s : SockId)
  | toMain (t : TId)
  | toIo (t : TId)
deriving DecidableEq

/-- The addresses of the packets of a list. -/
def addrs (l : List APacket) : List Nat := l.map (·.addr)

@[simp] theorem addrs_nil : addrs [] = [] := rfl

@[simp] theorem addrs_cons (p : APacket) (l : List APacket) :
    addrs (p :: l) = p.addr :: addrs l := rfl

@[simp] theorem addrs_append (l l' : List APacket) :
    addrs (l ++ l') = addrs l ++ addrs l' := by
  simp [addrs]

/-- What is left of a local end keeps its queue. -/
theorem Close.fate_queue {d : Close} {a : ASocket} (h : d.fate = some a) :
    a.queue = d.self.queue := by
  simp only [Close.fate] at h
  split at h
  · cases h
  · obtain rfl := Option.some.inj h
    rfl

/-- The memory after both ends of a stream gave up their places and their packets, before a
`CLSE` is sent. -/
def Core.parted (c : Core) (d : Close) (o : SockId) (b : ASocket) : Core :=
  (((c.putSock o none).freePkts (addrs b.queue)).putSock d.sock d.fate).freePkts
    (if d.fate.isSome then [] else addrs d.self.queue)

@[simp] theorem Core.parted_transports (c : Core) (d : Close) (o : SockId) (b : ASocket) :
    (c.parted d o b).transports = c.transports := rfl

theorem Core.close_sockets_parted {c : Core} {d : Close} {o : SockId} {b : ASocket}
    (hf : d.far = some (o, b)) : (c.close d).sockets = (c.parted d o b).sockets := by
  funext x
  by_cases hx : x = d.sock
  · simp [Core.parted, Core.close, hf, Core.freePkts, Core.putSock, hx]
  · by_cases hxo : x = o
    · subst hxo
      simp [Core.parted, Core.close, hf, Core.freePkts, Core.putSock, hx]
    · simp [Core.parted, Core.close, hf, Core.freePkts, Core.putSock, hx, hxo, Ne.symm hxo]

namespace Work

/-- What each owner holds. -/
def held (w : Work) : Owner → List Nat
  | .hand => w.hand
  | .queue s => (w.core.sockets s).elim [] fun a => addrs a.queue
  | .toMain t => (w.core.transports t).elim [] fun T => addrs T.ioToMain
  | .toIo t => (w.core.transports t).elim [] fun T => addrs T.mainToIo

/-- The books of the packet allocator. -/
def ledger (w : Work) : Ledger Owner where
  held := w.held
  live := w.core.livePkts
  next := w.core.nextPkt

/-- Two memories with the same packets everywhere have the same books. -/
theorem ledger_congr {w w' : Work} (hh : w'.hand = w.hand)
    (hq : ∀ s, (w'.core.sockets s).elim [] (fun a => addrs a.queue) =
      (w.core.sockets s).elim [] fun a => addrs a.queue)
    (hm : ∀ t, (w'.core.transports t).elim [] (fun T => addrs T.ioToMain) =
      (w.core.transports t).elim [] fun T => addrs T.ioToMain)
    (hi : ∀ t, (w'.core.transports t).elim [] (fun T => addrs T.mainToIo) =
      (w.core.transports t).elim [] fun T => addrs T.mainToIo)
    (hl : w'.core.livePkts = w.core.livePkts) (hn : w'.core.nextPkt = w.core.nextPkt) :
    w'.ledger = w.ledger := by
  refine Ledger.ext (funext fun o => ?_) hl hn
  cases o with
  | hand => exact hh
  | queue s => exact hq s
  | toMain t => exact hm t
  | toIo t => exact hi t

/-! ### Transactions on the memory -/

section Transactions

variable {c : Core} {H : List Nat} {t : TId} {T : ATransport} {s : SockId} {a : ASocket}

@[simp] theorem ledger_note (o : Obs) : ledger ⟨c.note o, H⟩ = ledger ⟨c, H⟩ := rfl

@[simp] theorem ledger_onLoop (f : Loop FdeId → Loop FdeId) :
    ledger ⟨c.onLoop f, H⟩ = ledger ⟨c, H⟩ := rfl

/-- What is held after the handler's packets changed. -/
theorem held_hand (c : Core) (H H' : List Nat) :
    held ⟨c, H'⟩ = Function.update (held ⟨c, H⟩) .hand H' := by
  funext o
  cases o <;> simp [held]

/-- What is held after the pipe to the input thread changed. -/
theorem held_setIo (hT : c.transports t = some T) (l : List APacket) :
    held ⟨c.putTransport t (some { T with mainToIo := l }), H⟩ =
      Function.update (held ⟨c, H⟩) (.toIo t) (addrs l) := by
  funext o
  cases o with
  | hand | queue => simp [held, Core.putTransport]
  | toMain t' | toIo t' =>
      by_cases ht : t' = t
      · subst ht; simp [held, Core.putTransport, hT]
      · simp [held, Core.putTransport, ht]

/-- What is held after the pipe from the output thread changed. -/
theorem held_setMain (hT : c.transports t = some T) (l : List APacket) :
    held ⟨c.putTransport t (some { T with ioToMain := l }), H⟩ =
      Function.update (held ⟨c, H⟩) (.toMain t) (addrs l) := by
  funext o
  cases o with
  | hand | queue => simp [held, Core.putTransport]
  | toMain t' | toIo t' =>
      by_cases ht : t' = t
      · subst ht; simp [held, Core.putTransport, hT]
      · simp [held, Core.putTransport, ht]

/-- What is held after a socket changed. -/
theorem held_putSock (c : Core) (H : List Nat) (s : SockId) (a' : Option ASocket) :
    held ⟨c.putSock s a', H⟩ =
      Function.update (held ⟨c, H⟩) (.queue s) (a'.elim [] fun a => addrs a.queue) := by
  funext o
  cases o with
  | hand | toMain | toIo => simp [held, Core.putSock]
  | queue s' =>
      by_cases hs : s' = s
      · subst hs; simp [held, Core.putSock]
      · simp [held, Core.putSock, hs]

/-- The books after a transport came, went or changed, but not the contents of its pipes. -/
theorem ledger_putTransport (T' : Option ATransport)
    (hm : T'.elim [] (fun T => addrs T.ioToMain) =
      (c.transports t).elim [] fun T => addrs T.ioToMain)
    (hi : T'.elim [] (fun T => addrs T.mainToIo) =
      (c.transports t).elim [] fun T => addrs T.mainToIo) :
    ledger ⟨c.putTransport t T', H⟩ = ledger ⟨c, H⟩ := by
  refine ledger_congr rfl (fun _ => rfl) (fun t' => ?_) (fun t' => ?_) rfl rfl <;>
    by_cases ht : t' = t
  · subst ht; simpa [Core.putTransport] using hm
  · simp [Core.putTransport, ht]
  · subst ht; simpa [Core.putTransport] using hi
  · simp [Core.putTransport, ht]

/-- The books after a transport changed, but not the contents of its pipes. -/
theorem ledger_putTransport_self (hT : c.transports t = some T) {T' : ATransport}
    (hm : T'.ioToMain = T.ioToMain) (hi : T'.mainToIo = T.mainToIo) :
    ledger ⟨c.putTransport t (some T'), H⟩ = ledger ⟨c, H⟩ :=
  ledger_putTransport _ (by simp [hT, hm]) (by simp [hT, hi])

/-- The books after a socket changed, but not the packets of its queue. -/
theorem ledger_putSock_self (hs : c.sockets s = some a) {a' : ASocket}
    (hq : addrs a'.queue = addrs a.queue) :
    ledger ⟨c.putSock s (some a'), H⟩ = ledger ⟨c, H⟩ := by
  refine ledger_congr rfl (fun s' => ?_) (fun _ => rfl) (fun _ => rfl) rfl rfl
  by_cases hs' : s' = s
  · subst hs'; simp [Core.putSock, hs, hq]
  · simp [Core.putSock, hs']

/-- Two records that agree on a pipe fill it alike wherever they stand. -/
theorem pipe_update {f : ATransport → List APacket} {T' : ATransport} (hf : f T' = f T)
    (m : TId → Option ATransport) (t' : TId) :
    (Function.update m t (some T') t').elim [] (fun T => addrs (f T)) =
      (Function.update m t (some T) t').elim [] fun T => addrs (f T) := by
  by_cases ht : t' = t
  · subst ht; simp [hf]
  · simp [ht]

/-- A socket that is not made yet has no queue. -/
theorem elim_queue_fresh (h : Graph c) {n : Nat} (hn : c.nextSock ≤ n) :
    (c.sockets n).elim [] (fun a => addrs a.queue) = [] := by
  rw [h.sockets_fresh hn]; rfl

/-- Two new sockets with empty queues change no queue. -/
theorem elim_queue_pair (h : Graph c) {a b : ASocket} (ha : a.queue = []) (hb : b.queue = [])
    (x : SockId) :
    (if x = c.nextSock then some a else if x = c.nextSock + 1 then some b
      else c.sockets x).elim [] (fun a => addrs a.queue) =
        (c.sockets x).elim [] fun a => addrs a.queue := by
  by_cases hx : x = c.nextSock
  · subst hx; simp [elim_queue_fresh h, ha]
  · by_cases hx' : x = c.nextSock + 1
    · subst hx'; simp [elim_queue_fresh h, hb]
    · simp [hx, hx']

/-- A smart socket has collected at most one packet. -/
theorem smart_queue (h : Graph c) (hs : c.sockets s = some a) (hk : a.kind = .smartSocket) :
    a.queue.head?.toList = a.queue := by
  rcases (h.shape hs).queue with hl | hq | ⟨-, hlen⟩
  · simp [hk, SockKind.isLocal] at hl
  · simp [hq]
  · cases hq : a.queue with
    | nil => rfl
    | cons p ps =>
        rw [hq, List.length_cons] at hlen
        rw [List.eq_nil_of_length_eq_zero (Nat.le_zero.mp (Nat.le_of_succ_le_succ hlen))]
        rfl

theorem conserves_newPkt : Conserves (ledger ⟨c, H⟩) (ledger ⟨c.newPkt, c.nextPkt :: H⟩) := by
  have heq : ledger ⟨c.newPkt, c.nextPkt :: H⟩ =
      (ledger ⟨c, H⟩).alloc .hand (c.nextPkt :: H) :=
    Ledger.ext (held_hand c H _) rfl rfl
  rw [heq]
  exact conserves_alloc (.refl _)

/-- The handler frees a packet it holds. -/
theorem conserves_freeHand {x : Nat} (hx : x ∈ H) :
    Conserves (ledger ⟨c, H⟩) (ledger ⟨c.freePkts [x], H.erase x⟩) := by
  have heq : ledger ⟨c.freePkts [x], H.erase x⟩ =
      (ledger ⟨c, H⟩).free .hand [x] (H.erase x) :=
    Ledger.ext (held_hand c H _) rfl rfl
  rw [heq]
  exact conserves_free (List.perm_cons_erase hx).symm

/-- The handler puts a packet it holds into the pipe to the input thread. -/
theorem conserves_push {p : APacket} (hT : c.transports t = some T) (hp : p.addr ∈ H) :
    Conserves (ledger ⟨c, H⟩) (ledger ⟨c.push t T p, H.erase p.addr⟩) := by
  have heq : ledger ⟨c.push t T p, H.erase p.addr⟩ = (ledger ⟨c, H⟩).move .hand (.toIo t)
      (H.erase p.addr) (addrs (T.mainToIo ++ [p])) :=
    Ledger.ext (by rw [ledger, Core.push, held_setIo hT, held_hand c H]; rfl) rfl rfl
  rw [heq]
  refine conserves_move (by simp) (List.perm_cons_erase hp).symm ?_
  simp only [ledger, held, hT, Option.elim_some, addrs_append]
  exact List.perm_append_singleton ..

/-- A new packet goes straight into the pipe to the input thread. -/
theorem conserves_sendNew (hT : c.transports t = some T) {r : Option SockId}
    {f : Nat → APacket} (hf : (f c.nextPkt).addr = c.nextPkt) :
    Conserves (ledger ⟨c, H⟩) (ledger ⟨c.sendNew t T r f, H⟩) := by
  have hpush := conserves_push (c := c.newPkt) (H := c.nextPkt :: H) (p := f c.nextPkt) hT
    (by simp [hf])
  rw [hf, List.erase_cons_head] at hpush
  exact conserves_newPkt.trans hpush

/-- A thread puts a packet it holds into the pipe to the main loop. -/
theorem conserves_post {p : APacket} (hT : c.transports t = some T) (hp : p.addr ∈ H) :
    Conserves (ledger ⟨c, H⟩)
      (ledger ⟨c.putTransport t (some { T with ioToMain := T.ioToMain ++ [p] }),
        H.erase p.addr⟩) := by
  have heq : ledger ⟨c.putTransport t (some { T with ioToMain := T.ioToMain ++ [p] }),
      H.erase p.addr⟩ = (ledger ⟨c, H⟩).move .hand (.toMain t) (H.erase p.addr)
        (addrs (T.ioToMain ++ [p])) :=
    Ledger.ext (by rw [ledger, held_setMain hT, held_hand c H]; rfl) rfl rfl
  rw [heq]
  refine conserves_move (by simp) (List.perm_cons_erase hp).symm ?_
  simp only [ledger, held, hT, Option.elim_some, addrs_append]
  exact List.perm_append_singleton ..

/-- The handler takes a packet out of the pipe from the output thread. -/
theorem conserves_popMain {p : APacket} {rest : List APacket} (hT : c.transports t = some T)
    (hp : T.ioToMain = p :: rest) :
    Conserves (ledger ⟨c, H⟩)
      (ledger ⟨c.putTransport t (some { T with ioToMain := rest }), p.addr :: H⟩) := by
  have heq : ledger ⟨c.putTransport t (some { T with ioToMain := rest }), p.addr :: H⟩ =
      (ledger ⟨c, H⟩).move (.toMain t) .hand (addrs rest) (p.addr :: H) :=
    Ledger.ext (by rw [ledger, held_hand _ H, held_setMain hT]; rfl) rfl rfl
  rw [heq]
  refine conserves_move (x := p.addr) (by simp) ?_ (.refl _)
  simp only [ledger, held, hT, Option.elim_some, hp, addrs_cons]
  exact .refl _

/-- The handler takes a packet out of the pipe to the input thread. -/
theorem conserves_popIo {p : APacket} {rest : List APacket} (hT : c.transports t = some T)
    (hp : T.mainToIo = p :: rest) :
    Conserves (ledger ⟨c, H⟩)
      (ledger ⟨c.putTransport t (some { T with mainToIo := rest }), p.addr :: H⟩) := by
  have heq : ledger ⟨c.putTransport t (some { T with mainToIo := rest }), p.addr :: H⟩ =
      (ledger ⟨c, H⟩).move (.toIo t) .hand (addrs rest) (p.addr :: H) :=
    Ledger.ext (by rw [ledger, held_hand _ H, held_setIo hT]; rfl) rfl rfl
  rw [heq]
  refine conserves_move (x := p.addr) (by simp) ?_ (.refl _)
  simp only [ledger, held, hT, Option.elim_some, hp, addrs_cons]
  exact .refl _

/-- A socket frees packets of its queue. -/
theorem conserves_freeQueue {z : Option ASocket} {l : List Nat} (hs : c.sockets s = some a)
    (hl : (l ++ z.elim [] fun a => addrs a.queue).Perm (addrs a.queue)) :
    Conserves (ledger ⟨c, H⟩) (ledger ⟨(c.putSock s z).freePkts l, H⟩) := by
  have heq : ledger ⟨(c.putSock s z).freePkts l, H⟩ =
      (ledger ⟨c, H⟩).free (.queue s) l (z.elim [] fun a => addrs a.queue) :=
    Ledger.ext (held_putSock c H s z) rfl rfl
  rw [heq]
  refine conserves_free ?_
  simp only [ledger, held, hs, Option.elim_some]
  exact hl

/-- The handler puts a packet it holds into the queue of a socket. -/
theorem conserves_enqueue {a' : ASocket} {x : Nat} (hs : c.sockets s = some a) (hx : x ∈ H)
    (hq : addrs a'.queue = addrs a.queue ++ [x]) :
    Conserves (ledger ⟨c, H⟩) (ledger ⟨c.putSock s (some a'), H.erase x⟩) := by
  have heq : ledger ⟨c.putSock s (some a'), H.erase x⟩ = (ledger ⟨c, H⟩).move .hand (.queue s)
      (H.erase x) (addrs a'.queue) :=
    Ledger.ext (by rw [ledger, held_putSock, held_hand c H]; rfl) rfl rfl
  rw [heq]
  refine conserves_move (by simp) (List.perm_cons_erase hx).symm ?_
  rw [hq]
  simp only [ledger, held, hs, Option.elim_some]
  exact List.perm_append_singleton ..

/-- A local end goes, or stays with its queue, and its far end goes. -/
theorem conserves_part {d : Close} {o : SockId} {b : ASocket}
    (hs : c.sockets d.sock = some d.self) (ho : c.sockets o = some b) (hne : o ≠ d.sock) :
    Conserves (ledger ⟨c, H⟩) (ledger ⟨c.parted d o b, H⟩) := by
  have hfar : Conserves (ledger ⟨c, H⟩)
      (ledger ⟨(c.putSock o none).freePkts (addrs b.queue), H⟩) :=
    conserves_freeQueue ho (by simp)
  refine hfar.trans (conserves_freeQueue (a := d.self) ?_ ?_)
  · simpa [Core.freePkts, Core.putSock, hne.symm] using hs
  · cases hfate : d.fate with
    | none => simp
    | some a' => simp [Close.fate_queue hfate]

/-- A closed stream without a far end gives up its queue, or keeps it. -/
theorem conserves_close_alone {d : Close} (hs : c.sockets d.sock = some d.self)
    (hf : d.far = none) : Conserves (ledger ⟨c, H⟩) (ledger ⟨c.close d, H⟩) := by
  have hq := conserves_freeQueue (c := c) (H := H) (z := d.fate)
    (l := if d.fate.isSome then [] else addrs d.self.queue) hs (by
      cases hfate : d.fate with
      | none => simp
      | some a' => simp [Close.fate_queue hfate])
  have htr := Core.close_transports_none (c := c) (d := d) (by simp [Close.remote, hf])
  refine hq.trans (.of_eq (ledger_congr rfl (fun x => ?_) (fun t => ?_) (fun t => ?_) ?_ ?_))
  · by_cases hx : x = d.sock
    · simp [Core.close, hf, Core.freePkts, Core.putSock, hx]
    · simp [Core.close, hf, Core.freePkts, Core.putSock, hx]
  · rw [htr]; rfl
  · rw [htr]; rfl
  · funext x
    simp [Core.close, Close.clse, Close.freed, hf, Core.freePkts, Core.putSock, addrs]
  · simp [Core.close, Close.clse, hf, Core.freePkts, Core.putSock]

/-- A closed stream to the remote: the `CLSE` packet, if there is one, goes straight into the
pipe. -/
theorem conserves_close_remote (hg : Graph c) {d : Close} {o : SockId} {b : ASocket}
    (hs : c.sockets d.sock = some d.self) (hf : d.far = some (o, b))
    (hb : c.sockets o = some b) (hne : o ≠ d.sock) (hk : b.kind = .remoteSocket) :
    Conserves (ledger ⟨c, H⟩) (ledger ⟨c.close d, H⟩) := by
  have hq := conserves_part (H := H) hs hb hne
  have hbq : b.queue = [] := by
    rcases (hg.shape hb).queue with hl | hq | ⟨hk', -⟩
    · simp [hk, SockKind.isLocal] at hl
    · exact hq
    · simp [hk] at hk'
  obtain ⟨t, T, ht, hT, -⟩ := hg.remote hb hk
  have htr := Core.close_transports_some (c := c) (d := d) (o := o)
    (by simp [Close.remote, hf, hk, ht]) hT
  by_cases hd : d.how = .disconnect
  · have hcl : d.clse c.nextPkt = [] := by simp [Close.clse, hf, hd]
    refine hq.trans (.of_eq (ledger_congr rfl (fun x => by rw [Core.close_sockets_parted hf])
      (fun t' => ?_) (fun t' => ?_) ?_ ?_))
    · by_cases htt : t' = t
      · subst htt; simp [htr, hT]
      · simp [htr, htt]
    · by_cases htt : t' = t
      · subst htt; simp [htr, hT, hcl]
      · simp [htr, htt]
    · funext x
      simp [Core.parted, Core.close, hcl, Close.freed, hf, Core.freePkts, Core.putSock, addrs,
        hk, hbq]
    · simp [Core.parted, Core.close, hcl, Core.freePkts, Core.putSock]
  · have hcl (x : Nat) : d.clse x =
        [ctlPacket x A_CLSE (if d.how = .fromPeer then d.self.id else 0) b.id] := by
      simp [Close.clse, hf, hk, hd]
    have hsend := conserves_sendNew (c := c.parted d o b) (t := t) (T := T)
      (r := none) (H := H)
      (f := fun x => ctlPacket x A_CLSE (if d.how = .fromPeer then d.self.id else 0) b.id)
      hT rfl
    refine (hq.trans hsend).trans (.of_eq (ledger_congr rfl
      (fun x => by rw [Core.close_sockets_parted hf]; rfl) (fun t' => ?_)
        (fun t' => ?_) ?_ ?_))
    · by_cases htt : t' = t
      · subst htt; simp [htr, Core.sendNew, Core.push, Core.note, Core.putTransport]
      · simp [htr, Core.sendNew, Core.push, Core.note, Core.putTransport, Core.newPkt, htt]
    · by_cases htt : t' = t
      · subst htt
        simp [htr, Core.sendNew, Core.push, Core.note, Core.putTransport, hcl, Core.parted,
          Core.freePkts, Core.putSock]
      · simp [htr, Core.sendNew, Core.push, Core.note, Core.putTransport, Core.newPkt, htt]
    · funext x
      simp [Core.parted, Core.close, hcl, Close.freed, hf, Core.freePkts, Core.putSock, addrs,
        hk, hbq, Core.sendNew, Core.push, Core.note, Core.putTransport, Core.newPkt,
        Function.update_apply]
    · simp [Core.parted, Core.close, hcl, Core.freePkts, Core.putSock, Core.sendNew, Core.push,
        Core.note, Core.putTransport, Core.newPkt]

/-- A closed stream to a smart socket, which gives up what it had collected. -/
theorem conserves_close_smart (hg : Graph c) {d : Close} {o : SockId} {b : ASocket}
    (hs : c.sockets d.sock = some d.self) (hf : d.far = some (o, b))
    (hb : c.sockets o = some b) (hne : o ≠ d.sock) (hk : b.kind = .smartSocket) :
    Conserves (ledger ⟨c, H⟩) (ledger ⟨c.close d, H⟩) := by
  have htr := Core.close_transports_none (c := c) (d := d) (by simp [Close.remote, hf, hk])
  have hcl (x : Nat) : d.clse x = [] := by simp [Close.clse, hf, hk]
  refine (conserves_part hs hb hne).trans (.of_eq (ledger_congr rfl
    (fun x => by rw [Core.close_sockets_parted hf]) (fun t' => by rw [htr]; rfl)
    (fun t' => by rw [htr]; rfl) ?_ ?_))
  · funext x
    have hmem : x ∈ d.freed ↔ x ∈ addrs b.queue ∨
        x ∈ (if d.fate.isSome then [] else addrs d.self.queue) := by
      simp only [Close.freed, hf, hk, smart_queue hg hb hk, addrs, if_true, List.mem_append]
    have hl : (c.close d).livePkts x = if x ∈ d.freed then false else c.livePkts x := by
      simp [Core.close, hcl]
    have hl₁ : (c.parted d o b).livePkts x =
        if x ∈ (if d.fate.isSome then [] else addrs d.self.queue) then false
        else if x ∈ addrs b.queue then false else c.livePkts x := rfl
    rw [hl, hl₁, if_congr hmem rfl rfl]
    by_cases h1 : x ∈ addrs b.queue
    · simp [h1]
    · simp only [h1, false_or, if_false]
  · simp [Core.parted, Core.close, hcl, Core.freePkts, Core.putSock]

/-- **Closing a stream frees what it must and loses nothing.** -/
theorem conserves_close (hg : Graph c) {d : Close} (hs : c.sockets d.sock = some d.self)
    (hk : d.self.kind.isEnd = true) (hp : d.self.peer = d.far.map (·.1))
    (hfar : ∀ o b, d.far = some (o, b) → c.sockets o = some b) :
    Conserves (ledger ⟨c, H⟩) (ledger ⟨c.close d, H⟩) := by
  cases hf : d.far with
  | none => exact conserves_close_alone hs hf
  | some ob =>
      obtain ⟨o, b⟩ := ob
      have hb := hfar o b hf
      have hpo : d.self.peer = some o := by simp [hp, hf]
      have hne : o ≠ d.sock := hg.peer_ne hs hpo
      obtain ⟨b', hb', -, hfaces⟩ := hg.peer hs hpo
      obtain rfl : b = b' := Option.some.inj (hb.symm.trans hb')
      by_cases hkr : b.kind = .remoteSocket
      · exact conserves_close_remote hg hs hf hb hne hkr
      · have hks : b.kind = .smartSocket := by
          revert hfaces hkr hk
          cases d.self.kind <;> cases b.kind <;> simp [SockKind.Faces, SockKind.isEnd]
        exact conserves_close_smart hg hs hf hb hne hks

/-! ### The other changes to the graph -/

/-- A closing socket whose queue is written out goes. -/
theorem conserves_drainDestroy {d : Drained} {notes : List Obs} (hs : c.sockets s = some a)
    (hc : a.closing = true) (hq : d.queue = []) (hd : addrs d.done = addrs a.queue) :
    Conserves (ledger ⟨c, H⟩) (ledger ⟨(c.drained s a d).close
      { sock := s, self := { a with queue := d.queue }, far := none, how := .call, notes },
        H⟩) := by
  have hfree := conserves_freeQueue (H := H) (z := none) (l := addrs d.done) hs
    (by rw [hd]; exact .of_eq (List.append_nil _))
  refine hfree.trans
    (.of_eq (ledger_congr rfl (fun x => ?_) (fun t => ?_) (fun t => ?_) ?_ ?_))
  · by_cases hx : x = s
    · simp [Core.close, Close.fate, hc, Core.freePkts, Core.putSock, hx]
    · simp [Core.close, Core.drained, Core.freePkts, Core.putSock, hx]
  · rw [Core.close_transports_none (by simp [Close.remote])]; rfl
  · rw [Core.close_transports_none (by simp [Close.remote])]; rfl
  · funext x
    simp [Core.close, Close.clse, Close.freed, hq, Core.drained, Core.freePkts, Core.putSock,
      addrs]
  · simp [Core.close, Close.clse, Core.drained, Core.freePkts, Core.putSock]

/-- A waiting socket becomes one end of a stream. -/
theorem conserves_attach (h : Graph c) {id : UInt32} {m : AMessage} (hs : c.sockets s = some a)
    (hT : c.transports t = some T) :
    Conserves (ledger ⟨c, H⟩) (ledger ⟨c.attach s a id t T m, H⟩) := by
  refine .of_eq (ledger_congr rfl (fun x => ?_) (fun t' => ?_) (fun t' => ?_) rfl rfl)
  · by_cases hx : x = s
    · subst hx; simp [Core.attach, hs]
    · by_cases hx' : x = c.nextSock
      · subst hx'; simp [Core.attach, hx, elim_queue_fresh h]
      · simp [Core.attach, hx, hx']
  · by_cases ht : t' = t
    · subst ht; simp [Core.attach, hT]
    · simp [Core.attach, ht]
  · by_cases ht : t' = t
    · subst ht; simp [Core.attach, hT]
    · simp [Core.attach, ht]

/-- The remote opens a stream: the answer is all that is new. -/
theorem conserves_openStream (h : Graph c) {d : Open} (hT : c.transports d.t = some d.T) :
    Conserves (ledger ⟨c, H⟩) (ledger ⟨c.openStream d, H⟩) := by
  have hsend := conserves_sendNew (c := c) (H := H) (t := d.t) (T := d.T) (r := none)
    (f := fun x => ctlPacket x A_OKAY c.localSocketNextId d.remote) hT rfl
  refine hsend.trans (.of_eq (ledger_congr rfl (elim_queue_pair h rfl rfl) (fun t' => ?_)
    (fun t' => ?_) rfl rfl))
  · simp only [Core.openStream, Core.sendNew, Core.push, Core.note, Core.putTransport,
      Core.newPkt]
    exact pipe_update (by rfl) c.transports t'
  · simp only [Core.openStream, Core.sendNew, Core.push, Core.note, Core.putTransport,
      Core.newPkt]
    exact pipe_update (by rfl) c.transports t'

/-- The smart socket has the request sent and goes, with what it had collected. -/
theorem conserves_rig (h : Graph c) {ss : SockId} {b : ASocket} {p : Nat → APacket}
    (hs : c.sockets s = some a) (hp : a.peer = some ss) (hb : c.sockets ss = some b)
    (hk : b.kind = .smartSocket) (hT : c.transports t = some T) (hpa : ∀ x, (p x).addr = x) :
    Conserves (ledger ⟨c, H⟩) (ledger ⟨c.rig s a ss b t T p, H⟩) := by
  have hne : ss ≠ s := h.peer_ne hs hp
  have hsend := conserves_sendNew (c := c) (H := H) (t := t) (T := T) (r := none) (f := p) hT
    (hpa _)
  have hfree := conserves_freeQueue (c := c.sendNew t T none p) (H := H) (z := none)
    (l := addrs b.queue) (s := ss) (a := b) hb (by simp)
  refine (hsend.trans hfree).trans (.of_eq (ledger_congr rfl (fun x => ?_) (fun t' => rfl)
    (fun t' => rfl) ?_ rfl))
  · by_cases hx : x = s
    · subst hx
      simp [Core.rig, Core.sendNew, Core.push, Core.note, Core.putTransport, Core.newPkt,
        Core.freePkts, Core.putSock, hne.symm, hs]
    · by_cases hx' : x = ss
      · subst hx'
        simp [Core.rig, Core.freePkts, Core.putSock, hx]
      · simp [Core.rig, Core.sendNew, Core.push, Core.note, Core.putTransport, Core.newPkt,
          Core.freePkts, Core.putSock, hx, hx']
  · funext x
    simp only [Core.rig, Core.sendNew, Core.push, Core.note, Core.putTransport, Core.newPkt,
      Core.freePkts, Core.putSock, smart_queue h hb hk, Function.update_apply, addrs]

end Transactions

end Work

namespace Op

/-- The operations after which every packet that was owned is owned or freed. -/
def Lossless : Op → Prop
  | .lose _ => False
  | .unregister _ T => T.ioToMain = [] ∧ T.mainToIo = []
  | _ => True

open Work

/-- **A lossless operation keeps the books in order and loses nothing.** -/
theorem conserves {w : Work} {o : Op} (h : Graph w.core) (hg : o.Guard w) (hl : o.Lossless) :
    Conserves w.ledger (o.apply w).ledger := by
  obtain ⟨c, H⟩ := w
  cases o with dsimp only [Op.apply, Op.effect, Op.handle]
  | io | pids | note | deliver | select | take | force | pendRead | readOff | ready | wrteFail
  | unlink => exact .refl _
  | newPkt => exact conserves_newPkt
  | freePkt x => exact conserves_freeHand hg
  | lose x => exact hl.elim
  | send t T p => exact conserves_push hg.1 hg.2
  | sendList s t T p => exact conserves_push hg.1 hg.2.1
  | readWrte s a t T p => exact conserves_push hg.2.2.1 hg.2.2.2.1
  | conn t T online state quals => exact .of_eq (ledger_putTransport_self hg rfl rfl)
  | closePipes t T => exact .of_eq (ledger_putTransport_self hg rfl rfl)
  | popMain t T p rest => exact conserves_popMain hg.1 hg.2
  | popIo t T p rest => exact conserves_popIo hg.1 hg.2
  | post t T p => exact conserves_post hg.1 hg.2
  | flags s a pass needUpdate => exact .of_eq (ledger_putSock_self hg.1 rfl)
  | choose s b t => exact .of_eq (ledger_putSock_self hg.1 rfl)
  | collectFirst s b p => exact conserves_enqueue hg.1 hg.2.2.2 (by simp [hg.2.2.1])
  | collectMore s b p =>
      exact .of_eq (ledger_putSock_self hg.1 (by simpa [addrs] using hg.2.2.symm))
  | wrteQueue t s a m p =>
      exact conserves_enqueue (c := (c.note _).note _) hg.1 hg.2.2.2.2 (by simp)
  | wrteBlock t s a m p bs =>
      exact conserves_enqueue (c := ((c.note _).note _).note _) hg.1 hg.2.2.2.2.1 (by simp)
  | wrteDone t s a T m p =>
      obtain ⟨-, -, -, -, hp, hT⟩ := hg
      set c₁ := (((c.note (.delivered t s m)).note (.taken s p.bytes)).note
        (.wrote s p.bytes)).note (.completed s) with hc₁
      have hT₁ : (c₁.freePkts [p.addr]).transports t = some T := hT
      have hfree : Conserves (ledger ⟨c, H⟩) (ledger ⟨c₁.freePkts [p.addr], H.erase p.addr⟩) :=
        conserves_freeHand (c := c₁) hp
      exact hfree.trans (conserves_sendNew hT₁ (ctlPacket_addr ..))
  | drain s a d =>
      obtain ⟨hs, -, ⟨ws, rfl⟩, -⟩ := hg
      have hq := conserves_freeQueue (H := H) (z := some { a with
        queue := (Adbd.drain ws a.queue).queue }) (l := addrs (Adbd.drain ws a.queue).done) hs
        (.of_eq (drain_addr ws a.queue))
      split
      · exact hq
      · exact hq
  | drainReady s a d far =>
      obtain ⟨hs, -, ⟨ws, rfl⟩, -, -, -, q, b, -, -, hfar⟩ := hg
      have hq := conserves_freeQueue (H := H) (z := some { a with
        queue := (Adbd.drain ws a.queue).queue }) (l := addrs (Adbd.drain ws a.queue).done) hs
        (.of_eq (drain_addr ws a.queue))
      rcases hfar with ⟨-, rfl⟩ | ⟨-, t, T, -, hT, rfl⟩
      · exact hq
      · refine hq.trans ?_
        exact conserves_sendNew (c := Core.onLoop (c.drained s a _) _) hT (ctlPacket_addr ..)
  | drainDestroy s a d notes =>
      obtain ⟨hs, -, ⟨ws, rfl⟩, hv, hc, -⟩ := hg
      have hq : (Adbd.drain ws a.queue).queue = [] := (drain_drained_iff _ _).mp hv
      refine conserves_drainDestroy hs hc hq ?_
      simpa [hq, addrs] using drain_addr ws a.queue
  | close d =>
      obtain ⟨hs, hk, hp, -, hfar⟩ := hg
      exact conserves_close h hs hk hp hfar
  | register t type =>
      have hT : c.transports t = none := hg
      have hput := ledger_putTransport (c := c) (t := t) (H := H) (some { type := type })
        (by simp [hT]) (by simp [hT])
      exact .of_eq hput
  | unregister t T =>
      obtain ⟨hT, -⟩ : c.transports t = some T ∧ _ := hg
      obtain ⟨hm, hi⟩ : T.ioToMain = [] ∧ T.mainToIo = [] := hl
      exact .of_eq (ledger_putTransport none (by simp [hT, hm]) (by simp [hT, hi]))
  | accept fd =>
      exact .of_eq (ledger_congr rfl (elim_queue_pair h rfl rfl) (fun _ => rfl) (fun _ => rfl)
        rfl rfl)
  | attach s a id t T m =>
      obtain ⟨hs, -, -, -, hT⟩ : c.sockets s = some a ∧ _ ∧ _ ∧ _ ∧
        c.transports t = some T := hg
      exact conserves_attach h hs hT
  | openStream d =>
      obtain ⟨-, -, hT⟩ := hg
      exact conserves_openStream h hT
  | rig s a ss b t T p =>
      obtain ⟨hs, hp, hb, hk, -, hT, hpa⟩ := hg
      exact conserves_rig h hs hp hb hk hT hpa

/-- **Every operation keeps the books in order**: whatever a handler does, no packet has
two owners, and what is owned is live. -/
theorem keeps {w : Work} {o : Op} (h : Graph w.core) (hg : o.Guard w) (hw : w.ledger.WF) :
    (o.apply w).ledger.WF := by
  by_cases hl : o.Lossless
  · exact (conserves h hg hl).wf hw
  · obtain ⟨c, H⟩ := w
    cases o with
    | lose x =>
        have hforget := hw.forget (o := .hand) (l := H.erase x) List.erase_sublist
        have heq : (Op.apply (.lose x) ⟨c, H⟩).ledger =
            { ledger ⟨c, H⟩ with
              held := Function.update (ledger ⟨c, H⟩).held .hand (H.erase x) } :=
          Ledger.ext (held_hand c H _) rfl rfl
        rw [heq]
        exact hforget
    | unregister t T =>
        have hm := hw.forget (o := .toMain t) (l := []) (List.nil_sublist _)
        have hi := hm.forget (o := .toIo t) (l := []) (List.nil_sublist _)
        have heq : (Op.apply (.unregister t T) ⟨c, H⟩).ledger =
            { ledger ⟨c, H⟩ with
              held := Function.update (Function.update (ledger ⟨c, H⟩).held (.toMain t) [])
                (.toIo t) [] } := by
          refine Ledger.ext (funext fun o => ?_) rfl rfl
          cases o with
          | hand | queue => simp [ledger, held, apply, effect, handle, Core.putTransport]
          | toMain t' | toIo t' =>
              by_cases ht : t' = t
              · subst ht; simp [ledger, held, apply, effect, Core.putTransport]
              · simp [ledger, held, apply, effect, Core.putTransport, ht]
        rw [heq]
        exact hi
    | _ => exact absurd trivial hl

end Op

end Adbd
