import Adbd.Packet
import Adbd.PtrQueue
import Adbd.Fdevent
import Mathlib.Data.List.Perm.Subperm

/-!
# The Packet Queue of a Local Socket

`local_socket_enqueue` and the `FDE_WRITE` branch of `local_socket_event_func`, with the
queue of the socket as the code keeps it: pointers `pkt_first` and `pkt_last` into a heap
of packets linked by `next`. One socket is modelled, by itself: the calls that can be made
on it are `QOp`, in any order, each with the results `adb_write` gives during it.

The packets are the `APacket`s of the list-level model; `PtrQueue.IsQueue` ties the two
together. `writeEvent_refines` is the refinement: the pointer-chasing loop computes
`drain` of the list the pointers represent.

## Main results

* `QSocket.Inv`: the invariant of the queue, kept by every call (`QSocket.inv_step`).
* `bytes_written_then_queued`: along every sequence of calls, as long as no write has
  failed fatally, the bytes written followed by the bytes queued are the bytes enqueued,
  `pkt_last` is the last packet reachable from `pkt_first`, and `FDE_WRITE` is watched
  while anything is queued.
-/

namespace Adbd

open PtrQueue

/-- The part of a local `asocket` that its queue lives in. `heap` holds the packets,
`loop` the socket's `fdevent`. `gone` is set once `s->close(s)` has destroyed the socket.
`taken`, `written` and `failed` record what happened: the payloads passed to
`local_socket_enqueue`, the bytes `adb_write` accepted on `write_fd`, and whether a write
failed fatally. -/
structure QSocket where
  heap : Heap APacket
  nextAddr : Nat
  pktFirst : Option Nat
  pktLast : Option Nat
  closing : Bool
  loop : Loop Unit
  gone : Bool
  taken : List UInt8
  written : List UInt8
  failed : Bool

namespace QSocket

/-- The socket `create_local_socket` returns. -/
def create : QSocket where
  heap := fun _ => none
  nextAddr := 0
  pktFirst := none
  pktLast := none
  closing := false
  loop := Loop.empty.fdeventInstall () 0
  gone := false
  taken := []
  written := []
  failed := false

/-- `get_apacket` followed by filling in the payload: a packet at a new address. -/
def getApacket (s : QSocket) (payload : List UInt8) : Nat × QSocket :=
  let p : APacket := { addr := s.nextAddr, len := payload.length, data := payload }
  (s.nextAddr,
    { s with heap := Function.update s.heap s.nextAddr (some ⟨none, p⟩),
             nextAddr := s.nextAddr + 1 })

/-- The label `enqueue:` of `local_socket_enqueue`: link `p` and watch for `FDE_WRITE`. -/
def linkTail (s : QSocket) (p : Nat) : Option QSocket := do
  let (heap, first, last) ← push s.heap s.pktFirst s.pktLast p
  pure { s with heap := heap, pktFirst := first, pktLast := last,
                loop := s.loop.fdeventAdd () Events.onlyWrite }

/-- `local_socket_enqueue`: the return code and the socket afterwards, or nothing if a
dangling pointer is followed. -/
def localSocketEnqueue (s : QSocket) (p : Nat) (ws : List WriteRes) :
    Option (Int × QSocket) := do
  let c ← s.heap p
  -- p->ptr = p->data
  let pkt := { c.val with ptr := 0 }
  let s := { s with heap := Function.update s.heap p (some { c with val := pkt }),
                    taken := s.taken ++ pkt.bytes }
  if s.pktFirst.isSome then
    let s ← s.linkTail p
    pure (1, s)
  else
    let r := writeLoop ws pkt.bytes
    let s := { s with
      heap := Function.update s.heap p (some { c with val := pkt.advance r.bytes.length }),
      written := s.written ++ r.bytes }
    match r.verdict with
    | .failed => pure (1, { s with gone := true, failed := true })
    | .drained => pure (0, { s with heap := Function.update s.heap p none })
    | .wouldBlock => do
        let s ← s.linkTail p
        pure (1, s)

/-- The loop of the `FDE_WRITE` branch, `while((p = s->pkt_first) != 0)`, with a bound on
its iterations; nothing if a dangling pointer is followed or the bound is used up. -/
def writeEventLoop : Nat → QSocket → List WriteRes → Option (WriteVerdict × QSocket)
  | fuel, s, ws =>
    match s.pktFirst with
    | none => some (.drained, s)
    | some p =>
        match fuel with
        | 0 => none
        | fuel + 1 => do
            let c ← s.heap p
            let r := writeLoop ws c.val.bytes
            let s := { s with
              heap := Function.update s.heap p
                (some { c with val := c.val.advance r.bytes.length }),
              written := s.written ++ r.bytes }
            match r.verdict with
            | .drained => do
                let (heap, first, last) ← pop s.heap s.pktFirst s.pktLast
                writeEventLoop fuel { s with heap := heap, pktFirst := first, pktLast := last }
                  r.left
            | v => pure (v, s)

/-- `local_socket_close_locked` on the socket's own queue: destroyed at once if it is on the
closing list or nothing is queued, put on that list otherwise. -/
def localSocketClose (s : QSocket) : QSocket :=
  if s.closing || s.pktFirst.isNone then { s with gone := true }
  else { s with closing := true, loop := s.loop.fdeventDel () Events.onlyRead }

/-- The `FDE_WRITE` branch of `local_socket_event_func`. The loop runs at most once per
packet ever allocated. The packet whose write failed is still queued when the socket is
closed. -/
def writeEvent (s : QSocket) (ws : List WriteRes) : Option QSocket := do
  let (v, s) ← writeEventLoop s.nextAddr s ws
  match v with
  | .wouldBlock => pure s
  | .failed => pure { s with failed := true }.localSocketClose
  | .drained =>
      if s.closing then pure s.localSocketClose
      else pure { s with loop := s.loop.fdeventDel () Events.onlyWrite }

/-- The calls made on a local socket: a packet is enqueued, the descriptor is reported
writable, the peer goes away (`local_socket_close_locked`), the interest in `FDE_READ`
changes, a `select` round reports events. -/
inductive QOp
  | enqueue (payload : List UInt8) (ws : List WriteRes)
  | writeEvent (ws : List WriteRes)
  | peerClosed
  | readInterest (on : Bool)
  | ready (ev : Events)

/-- One call. A destroyed socket receives no more calls. -/
def step (s : QSocket) (op : QOp) : Option QSocket :=
  if s.gone then some s
  else
    match op with
    | .enqueue payload ws => do
        let (p, s) := s.getApacket payload
        let (_, s) ← s.localSocketEnqueue p ws
        pure s
    | .writeEvent ws => s.writeEvent ws
    | .peerClosed => some s.localSocketClose
    | .readInterest on =>
        if on then some { s with loop := s.loop.fdeventAdd () Events.onlyRead }
        else some { s with loop := s.loop.fdeventDel () Events.onlyRead }
    | .ready ev => some { s with loop := s.loop.fdeventReady () ev }

/-- A sequence of calls. -/
def run (s : QSocket) (ops : List QOp) : Option QSocket := ops.foldlM step s

/-- The bytes a call adds to the stream. -/
def QOp.payload : QOp → List UInt8
  | .enqueue payload _ => payload
  | _ => []

/-- The payloads of the enqueue calls of a sequence, in order. -/
def payloads (ops : List QOp) : List UInt8 := ops.flatMap QOp.payload

/-! ### The invariant of the queue -/

/-- The cells a list of packets is stored in. -/
def cells (q : List APacket) : List (Nat × APacket) := q.map fun p => (p.addr, p)

@[simp] theorem addrs_cells (q : List APacket) : addrs (cells q) = q.map APacket.addr := by
  simp [cells, addrs, Function.comp_def]

/-- The pointers of `s` represent the queue `q`, nothing was lost or reordered unless the
socket was destroyed after a failed write, and the socket watches for `FDE_WRITE` while `q` is
not empty. -/
structure Inv (s : QSocket) (q : List APacket) : Prop where
  queue : IsQueue s.heap s.pktFirst s.pktLast (cells q)
  bound : ∀ a ∈ q.map APacket.addr, a < s.nextAddr
  conserved : s.failed = false ∨ s.gone = false → s.written ++ unwritten q = s.taken
  interest : q ≠ [] → (s.loop.fdes ()).interest.write = true

theorem inv_create : Inv create [] :=
  ⟨IsQueue.nil _, by simp, fun _ => rfl, by simp⟩

/-- Distinct addresses below the allocation counter: the queue is no longer than it. -/
theorem Inv.length_le {s : QSocket} {q : List APacket} (h : Inv s q) :
    q.length ≤ s.nextAddr := by
  have hnd : (q.map APacket.addr).Nodup := by simpa using h.queue.nodup
  have hsub : q.map APacket.addr ⊆ List.range s.nextAddr := fun a ha =>
    List.mem_range.mpr (h.bound a ha)
  simpa using (List.subperm_of_subset hnd hsub).length_le

theorem Inv.pktFirst_isSome {s : QSocket} {q : List APacket} (h : Inv s q) :
    s.pktFirst.isSome = true ↔ q ≠ [] := by
  have := h.queue.first_eq_none_iff
  rw [Option.isSome_iff_ne_none, ne_eq, this]
  simp [cells]

/-! ### Refinement of `drain` -/

/-- **The pointer-chasing loop computes `drain`** of the packets the pointers represent:
it ends with the same verdict, writes the same bytes, leaves the pointers representing
the packets that are left, and changes nothing else. -/
theorem writeEventLoop_refines (fuel : Nat) (s : QSocket) (ws : List WriteRes)
    (q : List APacket) (hq : IsQueue s.heap s.pktFirst s.pktLast (cells q))
    (hfuel : q.length ≤ fuel) :
    ∃ heap first last,
      writeEventLoop fuel s ws = some ((drain ws q).verdict,
        { s with heap := heap, pktFirst := first, pktLast := last,
                 written := s.written ++ (drain ws q).bytes }) ∧
      IsQueue heap first last (cells (drain ws q).queue) := by
  induction q generalizing fuel s ws with
  | nil =>
      have hf : s.pktFirst = none := hq.first_eq_none_iff.mpr rfl
      obtain ⟨heap, nextAddr, first, last, closing, loop, gone, taken, written, failed⟩ := s
      obtain rfl : first = none := hf
      exact ⟨heap, none, last, by simp [writeEventLoop, drain], hq⟩
  | cons p q ih =>
      obtain ⟨fuel, rfl⟩ : ∃ n, fuel = n + 1 := ⟨fuel - 1, by simp at hfuel; omega⟩
      have hf : s.pktFirst = some p.addr := hq.chain.1
      obtain ⟨nx, hp, hset⟩ :=
        hq.setHead (p.advance (writeLoop ws p.bytes).bytes.length)
      rw [writeEventLoop, drain]
      simp only [hf, hp, Option.bind_eq_bind, Option.bind_some]
      cases hv : (writeLoop ws p.bytes).verdict with
      | drained =>
          -- the head is written completely: it is unlinked and the loop goes on
          obtain ⟨first, last, hpop, hq'⟩ := hset.pop
          rw [hf] at hpop
          simp only [hpop, Option.bind_some]
          obtain ⟨heap', first', last', hrun, hq''⟩ := ih fuel
            { s with
              heap := Function.update (Function.update s.heap p.addr
                (some ⟨nx, p.advance (writeLoop ws p.bytes).bytes.length⟩)) p.addr none,
              pktFirst := first, pktLast := last,
              written := s.written ++ (writeLoop ws p.bytes).bytes }
            (writeLoop ws p.bytes).left hq' (by simpa using hfuel)
          exact ⟨heap', first', last', by rw [hrun]; simp [List.append_assoc], hq''⟩
      | wouldBlock | failed =>
          exact ⟨_, some p.addr, s.pktLast, rfl, by simpa [cells, hf] using hset⟩

/-- Linking a packet of the heap at the tail extends the represented queue by it. -/
theorem linkTail_spec {s : QSocket} {q : List APacket} {p : APacket} {n : Option Nat}
    (hq : IsQueue s.heap s.pktFirst s.pktLast (cells q)) (hp : s.heap p.addr = some ⟨n, p⟩)
    (hfresh : p.addr ∉ q.map APacket.addr) :
    ∃ heap first, s.linkTail p.addr = some
        { s with heap := heap, pktFirst := first, pktLast := some p.addr,
                 loop := s.loop.fdeventAdd () Events.onlyWrite } ∧
      IsQueue heap first (some p.addr) (cells (q ++ [p])) := by
  obtain ⟨heap, first, hpush, hq', -⟩ := hq.push hp (by simpa using hfresh)
  refine ⟨heap, first, ?_, by simpa [cells] using hq'⟩
  simp only [linkTail, hpush, Option.bind_eq_bind, Option.bind_some, pure]

/-! ### Every call keeps the invariant -/

/-- `local_socket_enqueue` on a fresh packet follows no dangling pointer and keeps the
invariant, whatever `adb_write` answers. -/
theorem localSocketEnqueue_spec {s : QSocket} {q : List APacket} {p : APacket}
    {n : Option Nat} (h : Inv s q) (hlive : s.gone = false)
    (hp : s.heap p.addr = some ⟨n, p⟩)
    (hptr : p.ptr = 0) (hlt : p.addr < s.nextAddr) (hfresh : p.addr ∉ q.map APacket.addr)
    (ws : List WriteRes) :
    ∃ r s' q', s.localSocketEnqueue p.addr ws = some (r, s') ∧ Inv s' q' ∧
      s'.taken = s.taken ++ p.bytes := by
  have hpkt : ({ p with ptr := 0 } : APacket) = p := by
    obtain ⟨addr, len, ptr, msg, data⟩ := p
    simpa using hptr.symm
  have hcons := h.conserved (.inr hlive)
  have hheap : Function.update s.heap p.addr (some ⟨n, p⟩) = s.heap := by
    rw [← hp, Function.update_eq_self]
  -- the packet may be rewritten or freed without touching the queue
  have hframe (x : Option (Cell APacket)) :
      IsQueue (Function.update s.heap p.addr x) s.pktFirst s.pktLast (cells q) :=
    h.queue.congr fun a ha => Function.update_of_ne
      (fun hap => hfresh (by simpa [hap] using ha)) _ _
  have hbound (p' : APacket) (hp' : p'.addr = p.addr) :
      ∀ a ∈ (q ++ [p']).map APacket.addr, a < s.nextAddr := by
    intro a ha
    simp only [List.map_append, List.map_cons, List.map_nil, List.mem_append,
      List.mem_singleton, hp'] at ha
    rcases ha with ha | rfl
    · exact h.bound a ha
    · exact hlt
  have hwatch : ((s.loop.fdeventAdd () Events.onlyWrite).fdes ()).interest.write = true := by
    simp [Events.union, Events.onlyWrite]
  simp only [localSocketEnqueue, hp, hpkt, hheap, Option.bind_eq_bind, Option.bind_some]
  by_cases hfirst : s.pktFirst.isSome = true
  · -- there is a backlog: the packet is queued untouched
    obtain ⟨heap, first, hlink, hq'⟩ := linkTail_spec
      (s := { s with taken := s.taken ++ p.bytes }) h.queue hp hfresh
    rw [if_pos hfirst]
    simp only [hlink, Option.bind_some, pure]
    refine ⟨1, _, q ++ [p], rfl, ⟨hq', hbound p rfl, fun _ => ?_, fun _ => hwatch⟩, rfl⟩
    simp [← List.append_assoc, hcons]
  · rw [if_neg hfirst]
    have hnil : q = [] := by
      by_contra hne
      exact hfirst (h.pktFirst_isSome.mpr hne)
    subst hnil
    cases hv : (writeLoop ws p.bytes).verdict with
    | failed =>
        exact ⟨1, _, [], rfl, ⟨hframe _, by simp, by simp, by simp⟩, rfl⟩
    | drained =>
        have hb := (writeLoop_drained_iff ws p.bytes).mp hv
        refine ⟨0, _, [], rfl, ⟨?_, by simp, fun _ => ?_, by simp⟩, rfl⟩
        · simpa using hframe none
        · simpa [hb] using hcons
    | wouldBlock =>
        obtain ⟨p', hp'⟩ : ∃ p', p.advance (writeLoop ws p.bytes).bytes.length = p' := ⟨_, rfl⟩
        have haddr : p'.addr = p.addr := by rw [← hp']; rfl
        obtain ⟨heap, first, hlink, hq'⟩ := linkTail_spec (p := p') (n := n)
          (s := { s with
            heap := Function.update s.heap p.addr (some ⟨n, p'⟩),
            taken := s.taken ++ p.bytes,
            written := s.written ++ (writeLoop ws p.bytes).bytes })
          (hframe _) (by simp [haddr]) (by simp)
        rw [haddr] at hlink
        simp only [hp', hlink, Option.bind_some, pure]
        refine ⟨1, _, [p'], rfl, ⟨haddr ▸ hq', hbound p' haddr, fun _ => ?_, fun _ => hwatch⟩,
          rfl⟩
        have happ := writeLoop_append ws p.bytes
        simp only [unwritten_nil, List.append_nil] at hcons
        simp [← hp', APacket.bytes_advance, List.append_assoc, happ, hcons]

/-- A change that leaves the packets alone keeps the invariant if it keeps the interest
in `FDE_WRITE` while anything is queued. -/
theorem Inv.withLoop {s : QSocket} {q : List APacket} (h : Inv s q) (hlive : s.gone = false)
    (loop : Loop Unit) (closing gone : Bool)
    (hw : q ≠ [] → (loop.fdes ()).interest.write = true) :
    Inv { s with loop := loop, closing := closing, gone := gone } q :=
  ⟨h.queue, h.bound, fun _ => h.conserved (.inr hlive), hw⟩

/-- Closing a socket leaves its packets alone. -/
theorem Inv.localSocketClose {s : QSocket} {q : List APacket} (h : Inv s q)
    (hlive : s.gone = false) :
    Inv s.localSocketClose q ∧ s.localSocketClose.taken = s.taken := by
  rw [QSocket.localSocketClose]
  split
  · exact ⟨h.withLoop hlive s.loop s.closing true h.interest, rfl⟩
  · refine ⟨h.withLoop hlive _ true s.gone fun hne => ?_, rfl⟩
    simpa [Events.diff, Events.onlyRead] using h.interest hne

/-- The `FDE_WRITE` branch follows no dangling pointer and keeps the invariant. -/
theorem writeEvent_spec {s : QSocket} {q : List APacket} (h : Inv s q)
    (hlive : s.gone = false) (ws : List WriteRes) :
    ∃ s' q', s.writeEvent ws = some s' ∧ Inv s' q' ∧ s'.taken = s.taken := by
  obtain ⟨heap, first, last, hrun, hq⟩ :=
    writeEventLoop_refines s.nextAddr s ws q h.queue h.length_le
  have hcons : s.written ++ (drain ws q).bytes ++ unwritten (drain ws q).queue = s.taken := by
    rw [List.append_assoc, drain_append, h.conserved (.inr hlive)]
  have hbound : ∀ a ∈ (drain ws q).queue.map APacket.addr, a < s.nextAddr := fun a ha =>
    h.bound a (by rw [← drain_addr ws q]; exact List.mem_append_right _ ha)
  have hne : (drain ws q).queue ≠ [] → q ≠ [] := by
    rintro hd rfl
    exact hd rfl
  -- the socket the loop leaves, whether the write failed or not
  have hloop (failed : Bool) :
      Inv { s with heap := heap, pktFirst := first, pktLast := last, failed := failed,
                   written := s.written ++ (drain ws q).bytes } (drain ws q).queue :=
    ⟨hq, hbound, fun _ => hcons, fun hd => h.interest (hne hd)⟩
  simp only [writeEvent, hrun, Option.bind_eq_bind, Option.bind_some]
  cases hv : (drain ws q).verdict with
  | wouldBlock => exact ⟨_, _, rfl, hloop s.failed, rfl⟩
  | failed =>
      obtain ⟨hclosed, htaken⟩ := (hloop true).localSocketClose hlive
      exact ⟨_, _, rfl, hclosed, htaken⟩
  | drained =>
      by_cases hc : s.closing = true
      · obtain ⟨hclosed, htaken⟩ := (hloop s.failed).localSocketClose hlive
        exact ⟨_, _, if_pos hc, hclosed, htaken⟩
      · have hnil := (drain_drained_iff ws q).mp hv
        exact ⟨_, _, if_neg hc, (hloop s.failed).withLoop hlive _ _ _ (by simp [hnil]), rfl⟩

/-- **Every call keeps the invariant**, follows no dangling pointer, and adds exactly its
payload to the stream of a live socket. -/
theorem inv_step {s : QSocket} {q : List APacket} (h : Inv s q) (op : QOp) :
    ∃ s' q', s.step op = some s' ∧ Inv s' q' ∧ (s.gone = true → s' = s) ∧
      (s.gone = false → s'.taken = s.taken ++ op.payload) := by
  by_cases hgone : s.gone = true
  · exact ⟨s, q, by simp [step, hgone], h, fun _ => rfl, by simp [hgone]⟩
  have hlive : s.gone = false := by simpa using hgone
  cases op with
  | enqueue payload ws =>
      -- the new packet lies at a fresh address, outside the queue
      have hfresh : s.nextAddr ∉ q.map APacket.addr := fun hm => by
        have := h.bound _ hm
        omega
      have hq : Inv (s.getApacket payload).2 q := by
        refine ⟨h.queue.congr fun a ha => Function.update_of_ne (fun hap => hfresh ?_) _ _,
          fun a ha => Nat.lt_succ_of_lt (h.bound a ha), h.conserved, h.interest⟩
        simpa [hap] using ha
      obtain ⟨r, s', q', hrun, hq', htaken⟩ := localSocketEnqueue_spec
        (p := { addr := s.nextAddr, len := payload.length, data := payload }) (n := none)
        hq hlive (by simp [getApacket]) rfl (by simp [getApacket]) hfresh ws
      refine ⟨s', q', ?_, hq', by simp [hlive], fun _ => ?_⟩
      · simp only [step, hlive, Bool.false_eq_true, if_false]
        exact congrArg (fun x => x >>= fun y => pure y.2) hrun
      · simpa [getApacket, APacket.bytes, QOp.payload] using htaken
  | writeEvent ws =>
      obtain ⟨s', q', hrun, hq', htaken⟩ := writeEvent_spec h hlive ws
      exact ⟨s', q', by simp [step, hlive, hrun], hq', by simp [hlive],
        fun _ => by simpa [QOp.payload] using htaken⟩
  | peerClosed =>
      obtain ⟨hclosed, htaken⟩ := h.localSocketClose hlive
      exact ⟨_, q, by simp [step, hlive], hclosed, by simp [hlive],
        fun _ => by simpa [QOp.payload] using htaken⟩
  | readInterest on =>
      cases on with
      | true =>
          refine ⟨{ s with loop := s.loop.fdeventAdd () Events.onlyRead }, q,
            by simp [step, hlive], h.withLoop hlive _ s.closing s.gone fun hne => ?_,
            by simp [hlive], fun _ => by simp [QOp.payload]⟩
          simp [Events.union, h.interest hne]
      | false =>
          refine ⟨{ s with loop := s.loop.fdeventDel () Events.onlyRead }, q,
            by simp [step, hlive], h.withLoop hlive _ s.closing s.gone fun hne => ?_,
            by simp [hlive], fun _ => by simp [QOp.payload]⟩
          simp [Events.diff, Events.onlyRead, h.interest hne]
  | ready ev =>
      exact ⟨{ s with loop := s.loop.fdeventReady () ev }, q, by simp [step, hlive],
        h.withLoop hlive _ s.closing s.gone fun hne => by simpa using h.interest hne,
        by simp [hlive], fun _ => by simp [QOp.payload]⟩

/-- A whole sequence of calls keeps the invariant. -/
theorem inv_run {s : QSocket} {q : List APacket} (h : Inv s q) (ops : List QOp) :
    ∃ s' q', s.run ops = some s' ∧ Inv s' q' ∧ (s.gone = true → s' = s) ∧
      (s'.gone = false → s'.taken = s.taken ++ payloads ops) := by
  induction ops generalizing s q with
  | nil => exact ⟨s, q, rfl, h, fun _ => rfl, fun _ => by simp [payloads]⟩
  | cons op ops ih =>
      obtain ⟨s₁, q₁, hstep, h₁, hgone₁, htaken₁⟩ := inv_step h op
      obtain ⟨s₂, q₂, hrun, h₂, hgone₂, htaken₂⟩ := ih h₁
      refine ⟨s₂, q₂, ?_, h₂, fun hg => ?_, fun hlive => ?_⟩
      · simpa [run, List.foldlM_cons, hstep] using hrun
      · obtain rfl := hgone₁ hg
        exact hgone₂ hg
      · have hlive₁ : s₁.gone = false := by
          by_contra hne
          obtain rfl := hgone₂ (by simpa using hne)
          exact hne hlive
        have hlive₀ : s.gone = false := by
          by_contra hne
          obtain rfl := hgone₁ (by simpa using hne)
          exact hne hlive₁
        rw [htaken₂ hlive, htaken₁ hlive₀]
        simp [payloads, List.append_assoc]

/-- **Byte-stream integrity towards the descriptor.** After any sequence of calls on a
local socket, with any results of `adb_write`: no call followed a dangling pointer; the
payloads recorded as enqueued are those of the calls while the socket lives; and as long
as no write failed fatally there is a list of packets `q` that is the queue, linked from
`pkt_first` with `pkt_last` its last packet (null exactly when `q` is empty), such that
the bytes written, followed by the unwritten bytes of `q` in order, are the payloads in
the order they were enqueued, and `FDE_WRITE` is watched whenever `q` is not empty. -/
theorem bytes_written_then_queued (ops : List QOp) :
    ∃ s, create.run ops = some s ∧ (s.gone = false → s.taken = payloads ops) ∧
      (s.failed = false → ∃ q : List APacket,
        Chain s.heap s.pktFirst (cells q) ∧
        s.pktLast = (q.map APacket.addr).getLast? ∧ (s.pktLast = none ↔ q = []) ∧
        s.written ++ unwritten q = s.taken ∧
        (q ≠ [] → (s.loop.fdes ()).interest.write = true)) := by
  obtain ⟨s, q, hrun, h, -, htaken⟩ := inv_run inv_create ops
  have hlast : s.pktLast = (q.map APacket.addr).getLast? := by simpa using h.queue.last_eq
  refine ⟨s, hrun, by simpa [create] using htaken, fun hf =>
    ⟨q, h.queue.chain, hlast, ?_, h.conserved (.inl hf), h.interest⟩⟩
  rw [hlast]
  simp

end QSocket

end Adbd
