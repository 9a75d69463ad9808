import Mathlib.Data.List.Basic
import Mathlib.Tactic.Common

/-!
# Packets and Writing Them Out

The packet types of `adb.h`, and the write loop that both `local_socket_enqueue` and the
`FDE_WRITE` branch of `local_socket_event_func` run on one packet. The results of the
successive `adb_write` calls are an input of the loop: a list of results, would-block once
the list is used up. `adb_write` retries `EINTR` itself, so the only errors it reports are
`EAGAIN` and fatal ones.

## Main definitions

* `AMessage`, `APacket`: `struct amessage` and `struct apacket`.
* `writeLoop`: `while(p->len > 0) { r = adb_write(..); .. }`.
* `drain`: the outer loop of the `FDE_WRITE` branch over the packets of a queue.

## Main results

* `writeLoop_append`, `drain_append`: what was written followed by what is left is what
  there was.
* `drain_drained_iff`: the loop ends without blocking or failing exactly when it
  empties the queue.
-/

namespace Adbd

/-- `MAX_PAYLOAD`. -/
def MAX_PAYLOAD : Nat := 4096

/-- The command words of the protocol. -/
def A_SYNC : UInt32 := 0x434e5953
def A_CNXN : UInt32 := 0x4e584e43
def A_OPEN : UInt32 := 0x4e45504f
def A_OKAY : UInt32 := 0x59414b4f
def A_CLSE : UInt32 := 0x45534c43
def A_WRTE : UInt32 := 0x45545257
def A_AUTH : UInt32 := 0x48545541

/-- `struct amessage`. -/
structure AMessage where
  command : UInt32 := 0
  arg0 : UInt32 := 0
  arg1 : UInt32 := 0
  dataLength : UInt32 := 0
  dataCheck : UInt32 := 0
  magic : UInt32 := 0
deriving DecidableEq, Repr

/-- `struct apacket`. `addr` is the address `get_apacket` returned, `ptr` the offset of
the pointer `ptr` into `data`. The queue link `next` is not here: a queue is a list of
packets. -/
structure APacket where
  addr : Nat
  len : Nat := 0
  ptr : Nat := 0
  msg : AMessage := {}
  data : List UInt8 := []
deriving DecidableEq, Repr

/-- The bytes `ptr[0 .. len)` of a packet: what is still to be written. -/
def APacket.bytes (p : APacket) : List UInt8 := (p.data.drop p.ptr).take p.len

/-- `p->ptr += n; p->len -= n`. -/
def APacket.advance (p : APacket) (n : Nat) : APacket :=
  { p with ptr := p.ptr + n, len := p.len - n }

@[simp] theorem APacket.advance_addr (p : APacket) (n : Nat) :
    (p.advance n).addr = p.addr := rfl

/-- Advancing past `n` bytes leaves the bytes after the first `n`. -/
theorem APacket.bytes_advance (p : APacket) (n : Nat) :
    (p.advance n).bytes = p.bytes.drop n := by
  simp [APacket.bytes, APacket.advance, List.drop_take, List.drop_drop]

/-! ### The write loop on one packet -/

/-- The result of one `adb_write` call on a non-empty buffer: a byte count (never more
than was offered, `0` included), `EAGAIN`, or a fatal error. -/
inductive WriteRes
  | wrote (n : Nat)
  | eagain
  | error
deriving DecidableEq, Repr

/-- How a write loop ends. -/
inductive WriteVerdict
  | drained
  | wouldBlock
  | failed
deriving DecidableEq, Repr

/-- The outcome of the write loop on one packet: the bytes `adb_write` accepted, the
results it did not need, and why the loop ended. -/
structure Written where
  bytes : List UInt8
  left : List WriteRes
  verdict : WriteVerdict
deriving DecidableEq, Repr

/-- `while(p->len > 0) { r = adb_write(..); if(r > 0) { advance; continue; } .. }`: a zero
count and an error other than `EAGAIN` fail, `EAGAIN` blocks. -/
def writeLoop : List WriteRes → List UInt8 → Written
  | ws, [] => { bytes := [], left := ws, verdict := .drained }
  | [], _ :: _ => { bytes := [], left := [], verdict := .wouldBlock }
  | .eagain :: ws, _ :: _ => { bytes := [], left := ws, verdict := .wouldBlock }
  | .error :: ws, _ :: _ => { bytes := [], left := ws, verdict := .failed }
  | .wrote 0 :: ws, _ :: _ => { bytes := [], left := ws, verdict := .failed }
  | .wrote (n + 1) :: ws, b :: bs =>
      let r := writeLoop ws ((b :: bs).drop (n + 1))
      { r with bytes := (b :: bs).take (n + 1) ++ r.bytes }

/-- The accepted bytes are a prefix of the packet's bytes. -/
theorem writeLoop_append (ws : List WriteRes) (bs : List UInt8) :
    (writeLoop ws bs).bytes ++ bs.drop (writeLoop ws bs).bytes.length = bs := by
  induction ws, bs using writeLoop.induct with
  | case1 ws => simp [writeLoop]
  | case2 b bs => simp [writeLoop]
  | case3 ws b bs => simp [writeLoop]
  | case4 ws b bs => simp [writeLoop]
  | case5 ws b bs => simp [writeLoop]
  | case6 n ws b bs ih =>
      rw [writeLoop]
      by_cases h : (b :: bs).length ≤ n + 1
      · have hd : (b :: bs).drop (n + 1) = [] := List.drop_eq_nil_of_le h
        simp [hd, writeLoop, List.take_of_length_le h]
      · have hl : ((b :: bs).take (n + 1)).length = n + 1 := by
          rw [List.length_take]; omega
        have hdrop (k : Nat) : (b :: bs).drop (n + 1 + k) = ((b :: bs).drop (n + 1)).drop k :=
          List.drop_drop.symm
        rw [List.length_append, hl, hdrop, List.append_assoc, ih, List.take_append_drop]

/-- The loop leaves no byte exactly when it neither blocks nor fails. -/
theorem writeLoop_drained_iff (ws : List WriteRes) (bs : List UInt8) :
    (writeLoop ws bs).verdict = .drained ↔ (writeLoop ws bs).bytes = bs := by
  induction ws, bs using writeLoop.induct with
  | case1 ws => simp [writeLoop]
  | case2 b bs => simp [writeLoop]
  | case3 ws b bs => simp [writeLoop]
  | case4 ws b bs => simp [writeLoop]
  | case5 ws b bs => simp [writeLoop]
  | case6 n ws b bs ih =>
      rw [writeLoop]
      constructor
      · intro h
        rw [ih.mp h]
        exact List.take_append_drop _ _
      · intro h
        refine ih.mpr ?_
        have hsplit : (b :: bs).take (n + 1) ++ (b :: bs).drop (n + 1) = b :: bs :=
          List.take_append_drop _ _
        exact List.append_cancel_left (h.trans hsplit.symm)

/-! ### Draining a queue -/

/-- The outcome of draining a queue: the bytes accepted, the packets that are left, the
packets written completely (each is freed, in this order), and why the loop ended. -/
structure Drained where
  bytes : List UInt8
  queue : List APacket
  done : List APacket
  verdict : WriteVerdict
deriving DecidableEq, Repr

/-- `while((p = s->pkt_first) != 0) { <write loop on p>; unlink and free p }`. -/
def drain : List WriteRes → List APacket → Drained
  | _, [] => { bytes := [], queue := [], done := [], verdict := .drained }
  | ws, p :: q =>
      let r := writeLoop ws p.bytes
      match r.verdict with
      | .drained =>
          let d := drain r.left q
          { d with bytes := r.bytes ++ d.bytes, done := p :: d.done }
      | v =>
          { bytes := r.bytes, queue := p.advance r.bytes.length :: q, done := [],
            verdict := v }

/-- The unwritten bytes of a queue, in list order. -/
def unwritten (q : List APacket) : List UInt8 := q.flatMap APacket.bytes

@[simp] theorem unwritten_nil : unwritten [] = [] := rfl

@[simp] theorem unwritten_cons (p : APacket) (q : List APacket) :
    unwritten (p :: q) = p.bytes ++ unwritten q := rfl

@[simp] theorem unwritten_append (q r : List APacket) :
    unwritten (q ++ r) = unwritten q ++ unwritten r := by
  simp [unwritten]

/-- **Draining loses and duplicates nothing**: the bytes accepted, followed by the bytes
of the packets left, are the bytes of the queue. -/
theorem drain_append (ws : List WriteRes) (q : List APacket) :
    (drain ws q).bytes ++ unwritten (drain ws q).queue = unwritten q := by
  induction q generalizing ws with
  | nil => rfl
  | cons p q ih =>
      rw [drain]
      cases hv : (writeLoop ws p.bytes).verdict with
      | drained =>
          have hb := (writeLoop_drained_iff ws p.bytes).mp hv
          simp only [List.append_assoc, ih, hb, unwritten_cons]
      | wouldBlock | failed =>
          simp only [unwritten_cons, APacket.bytes_advance, ← List.append_assoc,
            writeLoop_append]

/-- The loop ends without blocking or failing exactly when the queue is empty. -/
theorem drain_drained_iff (ws : List WriteRes) (q : List APacket) :
    (drain ws q).verdict = .drained ↔ (drain ws q).queue = [] := by
  induction q generalizing ws with
  | nil => simp [drain]
  | cons p q ih =>
      rw [drain]
      cases hv : (writeLoop ws p.bytes).verdict with
      | drained => exact ih _
      | wouldBlock => simp
      | failed => simp

/-- The packets freed and the packets left, together, are the packets of the queue; only
the first packet left has changed, and only in `ptr` and `len`. -/
theorem drain_addr (ws : List WriteRes) (q : List APacket) :
    (drain ws q).done.map APacket.addr ++ (drain ws q).queue.map APacket.addr =
      q.map APacket.addr := by
  induction q generalizing ws with
  | nil => rfl
  | cons p q ih =>
      rw [drain]
      cases (writeLoop ws p.bytes).verdict with
      | drained => simp [ih]
      | wouldBlock | failed => simp

/-- A queue that drains completely had all its bytes written. -/
theorem drain_bytes_of_drained {ws : List WriteRes} {q : List APacket}
    (h : (drain ws q).verdict = .drained) : (drain ws q).bytes = unwritten q := by
  have happ := drain_append ws q
  rw [(drain_drained_iff ws q).mp h] at happ
  simpa using happ

end Adbd
