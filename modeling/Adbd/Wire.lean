import Adbd.Ops
import Mathlib.Data.List.TakeDrop
import Mathlib.Tactic.IntervalCases

/-!
# The Wire Format

How packets become bytes of a connection and bytes become packets: `readx` and `writex` of
`transport.c`, `bulk_read` and `bulk_write` of the FunctionFS device, the single calls of
the older `f_adb` device, `check_header` and `check_data`, and `remote_read` and
`remote_write` of `transport_local.c` and `transport_usb.c`, for hosts of either byte order.

How the system calls on a connection end is an input: a list of results, in order. A call
for which the list holds nothing any more transfers all it was asked for, so that a list
stands for the calls up to some point and every way to split a stream is given by a list.
`adb_read` and `adb_write` repeat a call that ended with `EINTR`.

## Main definitions

* `Call`: how one system call ends.
* `writex`, `bulkWrite`, `usbAdbWrite`, `readx`, `bulkRead`, `usbAdbRead`: the transfers.
* `AMessage.image`, `AMessage.load`, `fixEndians`: the header in memory.
* `Channel`, `remoteWrite`, `remoteRead`: the transports.
* `RoundTrips`: what was written is what is read.

## Main results

* `remoteWrite_ok`, `remoteRead_wire`: one packet.
* `wire_framing`: lists of packets, and what every accepted packet satisfies.
-/

namespace Adbd

open Program

/-! ### Transfers -/

/-- How a system call on a connection ends: at most `n` bytes are transferred, the call is
interrupted, or it fails. -/
inductive Call
  | upTo (n : Nat)
  | eintr
  | error
deriving DecidableEq, Repr

/-- The end of a write: the bytes the connection accepted, the calls not made, and whether
all was written. -/
structure Put where
  bytes : List UInt8
  left : List Call
  ok : Bool
deriving DecidableEq, Repr

/-- The end of a read: the result, what is left of the stream and the calls not made, or
failure, or a loop that asks an exhausted stream for ever. -/
inductive Got (α : Type)
  | got (a : α) (rest : List UInt8) (left : List Call)
  | failed
  | hangs
deriving DecidableEq, Repr

/-- Go on with the result of a read. -/
def Got.andThen {α β : Type} (r : Got α) (f : α → List UInt8 → List Call → Got β) : Got β :=
  match r with
  | .got a rest left => f a rest left
  | .failed => .failed
  | .hangs => .hangs

/-- Put bytes read before in front. -/
def Got.after (r : Got (List UInt8)) (bs : List UInt8) : Got (List UInt8) :=
  r.andThen fun bs' => .got (bs ++ bs')

/-- `writex`: a call that transfers nothing ends it. -/
def writex : List Call → List UInt8 → Put
  | cs, [] => { bytes := [], left := cs, ok := true }
  | [], b :: bs => { bytes := b :: bs, left := [], ok := true }
  | .eintr :: cs, b :: bs => writex cs (b :: bs)
  | .error :: cs, _ :: _ => { bytes := [], left := cs, ok := false }
  | .upTo 0 :: cs, _ :: _ => { bytes := [], left := cs, ok := false }
  | .upTo (n + 1) :: cs, b :: bs =>
      let r := writex cs ((b :: bs).drop (n + 1))
      { r with bytes := (b :: bs).take (n + 1) ++ r.bytes }

/-- `bulk_write`, whose loop has its test at the end: a call that transfers nothing is
followed by another. -/
def bulkWrite : List Call → List UInt8 → Put
  | [], bs => { bytes := bs, left := [], ok := true }
  | .eintr :: cs, bs => bulkWrite cs bs
  | .error :: cs, _ => { bytes := [], left := cs, ok := false }
  | .upTo n :: cs, bs =>
      if bs.length ≤ n then { bytes := bs, left := cs, ok := true }
      else
        let r := bulkWrite cs (bs.drop n)
        { r with bytes := bs.take n ++ r.bytes }

/-- `usb_adb_write`: one call, which must transfer all. -/
def usbAdbWrite : List Call → List UInt8 → Put
  | [], bs => { bytes := bs, left := [], ok := true }
  | .eintr :: cs, bs => usbAdbWrite cs bs
  | .error :: cs, _ => { bytes := [], left := cs, ok := false }
  | .upTo n :: cs, bs => { bytes := bs.take n, left := cs, ok := decide (bs.length ≤ n) }

/-- `readx`, for `len` bytes of the stream `st`: a call that transfers nothing ends it. -/
def readx : List Call → Nat → List UInt8 → Got (List UInt8)
  | cs, 0, st => .got [] st cs
  | [], len + 1, st =>
      if len + 1 ≤ st.length then .got (st.take (len + 1)) (st.drop (len + 1)) [] else .failed
  | .eintr :: cs, len + 1, st => readx cs (len + 1) st
  | .error :: _, _ + 1, _ => .failed
  | .upTo n :: cs, len + 1, st =>
      let bs := st.take (min n (len + 1))
      if bs = [] then .failed
      else (readx cs (len + 1 - bs.length) (st.drop bs.length)).after bs

/-- `bulk_read`, whose loop has its test at the end: a call that transfers nothing is
followed by another. -/
def bulkRead : List Call → Nat → List UInt8 → Got (List UInt8)
  | [], len, st => if len ≤ st.length then .got (st.take len) (st.drop len) [] else .hangs
  | .eintr :: cs, len, st => bulkRead cs len st
  | .error :: _, _, _ => .failed
  | .upTo n :: cs, len, st =>
      let bs := st.take (min n len)
      if bs.length = len then .got bs (st.drop bs.length) cs
      else (bulkRead cs (len - bs.length) (st.drop bs.length)).after bs

/-- `usb_adb_read`: one call, which must transfer all. -/
def usbAdbRead : List Call → Nat → List UInt8 → Got (List UInt8)
  | [], len, st => if len ≤ st.length then .got (st.take len) (st.drop len) [] else .failed
  | .eintr :: cs, len, st => usbAdbRead cs len st
  | .error :: _, _, _ => .failed
  | .upTo n :: cs, len, st =>
      let bs := st.take (min n len)
      if bs.length = len then .got bs (st.drop bs.length) cs else .failed

/-! ### The header in memory -/

/-- The byte order of the machine `adbd` runs on. -/
inductive ByteOrder
  | little
  | big
deriving DecidableEq, Repr

/-- `H4`. -/
def H4 (x : UInt32) : UInt32 :=
  ((x &&& 0xFF000000) >>> 24) ||| ((x &&& 0x00FF0000) >>> 8) |||
    ((x &&& 0x0000FF00) <<< 8) ||| ((x &&& 0x000000FF) <<< 24)

/-- The word with these bytes, the least significant first. -/
def joinBytes (b₀ b₁ b₂ b₃ : UInt8) : UInt32 :=
  b₀.toUInt32 ||| (b₁.toUInt32 <<< 8) ||| (b₂.toUInt32 <<< 16) ||| (b₃.toUInt32 <<< 24)

/-- The four bytes of a word in memory. -/
def storeWord : ByteOrder → UInt32 → List UInt8
  | .little, w => [w.toUInt8, (w >>> 8).toUInt8, (w >>> 16).toUInt8, (w >>> 24).toUInt8]
  | .big, w => [(w >>> 24).toUInt8, (w >>> 16).toUInt8, (w >>> 8).toUInt8, w.toUInt8]

/-- The word at the start of a piece of memory. -/
def loadWord : ByteOrder → List UInt8 → UInt32
  | .little, b₀ :: b₁ :: b₂ :: b₃ :: _ => joinBytes b₀ b₁ b₂ b₃
  | .big, b₀ :: b₁ :: b₂ :: b₃ :: _ => joinBytes b₃ b₂ b₁ b₀
  | _, _ => 0

/-- The 24 bytes of a header in memory. -/
def AMessage.image (o : ByteOrder) (m : AMessage) : List UInt8 :=
  storeWord o m.command ++ (storeWord o m.arg0 ++ (storeWord o m.arg1 ++
    (storeWord o m.dataLength ++ (storeWord o m.dataCheck ++ storeWord o m.magic))))

/-- The header at the start of a piece of memory. -/
def AMessage.load (o : ByteOrder) (bs : List UInt8) : AMessage where
  command := loadWord o bs
  arg0 := loadWord o (bs.drop 4)
  arg1 := loadWord o (bs.drop 8)
  dataLength := loadWord o (bs.drop 12)
  dataCheck := loadWord o (bs.drop 16)
  magic := loadWord o (bs.drop 20)

/-- `fix_endians`. -/
def fixEndians : ByteOrder → AMessage → AMessage
  | .little, m => m
  | .big, m =>
      { command := H4 m.command, arg0 := H4 m.arg0, arg1 := H4 m.arg1,
        dataLength := H4 m.dataLength, dataCheck := H4 m.dataCheck, magic := H4 m.magic }

/-! ### Packets -/

/-- The payload of a packet. -/
def APacket.body (p : APacket) : List UInt8 := p.data.take p.msg.dataLength.toNat

/-- The payload is no longer than allowed, and the buffer holds it. -/
def APacket.Fits (p : APacket) : Prop :=
  p.msg.dataLength.toNat ≤ MAX_PAYLOAD ∧ p.msg.dataLength.toNat ≤ p.data.length

instance (p : APacket) : Decidable p.Fits := by unfold APacket.Fits; infer_instance

/-- `check_header`. -/
def checkHeader (m : AMessage) : Bool :=
  m.magic = m.command ^^^ 0xffffffff && m.dataLength.toNat ≤ MAX_PAYLOAD

/-- `check_data`. -/
def checkData (m : AMessage) (data : List UInt8) : Bool :=
  dataSum (data.take m.dataLength.toNat) = m.dataCheck

/-! ### The transports -/

/-- The two kinds of `usb_handle`: FunctionFS, and the older `f_adb` device. -/
inductive UsbHandle
  | ffs
  | adb
deriving DecidableEq, Repr

/-- What a transport runs over. -/
inductive Channel
  | tcp
  | usb (h : UsbHandle)
deriving DecidableEq, Repr

/-- `usb_write`. -/
def usbWrite : UsbHandle → List Call → List UInt8 → Put
  | .ffs => bulkWrite
  | .adb => usbAdbWrite

/-- `usb_read`. -/
def usbRead : UsbHandle → List Call → Nat → List UInt8 → Got (List UInt8)
  | .ffs => bulkRead
  | .adb => usbAdbRead

/-- `remote_write` of `transport_usb.c`: the header, then the payload if there is one. -/
def remoteWriteUsb (h : UsbHandle) (o : ByteOrder) (p : APacket) (cs : List Call) : Put :=
  let size := p.msg.dataLength.toNat
  let m := fixEndians o p.msg
  let r := usbWrite h cs (m.image o)
  if r.ok = false then r
  else if m.dataLength = 0 then r
  else
    let r' := usbWrite h r.left (p.data.take size)
    { r' with bytes := r.bytes ++ r'.bytes }

/-- `remote_write`: `transport_local.c` writes header and payload at once. -/
def remoteWrite : Channel → ByteOrder → APacket → List Call → Put
  | .tcp, o, p, cs =>
      writex cs ((fixEndians o p.msg).image o ++ p.data.take p.msg.dataLength.toNat)
  | .usb h, o, p, cs => remoteWriteUsb h o p cs

/-- `remote_read`, with the reads of the header and of the payload. -/
def remoteReadWith (readHeader readData : List Call → Nat → List UInt8 → Got (List UInt8))
    (o : ByteOrder) (cs : List Call) (st : List UInt8) : Got (AMessage × List UInt8) :=
  (readHeader cs 24 st).andThen fun header st cs =>
    let m := fixEndians o (AMessage.load o header)
    if checkHeader m then
      (readData cs m.dataLength.toNat st).andThen fun data st cs =>
        if checkData m data then .got (m, data) st cs else .failed
    else .failed

/-- The payload of a packet of `transport_usb.c`, which is not read when it is empty. -/
def readPayload (h : UsbHandle) (cs : List Call) (len : Nat) (st : List UInt8) :
    Got (List UInt8) :=
  if len = 0 then .got [] st cs else usbRead h cs len st

/-- `remote_read` of `transport_local.c` and of `transport_usb.c`. -/
def remoteRead : Channel → ByteOrder → List Call → List UInt8 → Got (AMessage × List UInt8)
  | .tcp => remoteReadWith readx readx
  | .usb h => remoteReadWith (usbRead h) (readPayload h)

/-- Write packets one after the other. -/
def writeAll (k : Channel) (o : ByteOrder) : List APacket → List Call → Put
  | [], cs => { bytes := [], left := cs, ok := true }
  | p :: ps, cs =>
      let r := remoteWrite k o p cs
      let r' := writeAll k o ps r.left
      { bytes := r.bytes ++ r'.bytes, left := r'.left, ok := r.ok && r'.ok }

/-- Read `n` packets one after the other. -/
def readAll (k : Channel) (o : ByteOrder) :
    Nat → List Call → List UInt8 → Got (List (AMessage × List UInt8))
  | 0, cs, st => .got [] st cs
  | n + 1, cs, st =>
      (remoteRead k o cs st).andThen fun p st cs =>
        (readAll k o n cs st).andThen fun ps => .got (p :: ps)

/-! ### What a write does -/

/-- What every write does with the bytes `bs` and the calls `cs`: the connection accepts a
prefix of the bytes, all of them exactly if the write succeeds. -/
structure Put.Writes (r : Put) (cs : List Call) (bs : List UInt8) : Prop where
  accepted : r.bytes <+: bs
  ok_iff : r.ok = true ↔ r.bytes = bs
  left : r.left <:+ cs

/-- A write goes on after a call that accepted the first `n` bytes. -/
theorem Put.Writes.after {r : Put} {c : Call} {cs : List Call} {bs : List UInt8} {n : Nat}
    (h : r.Writes cs (bs.drop n)) :
    { r with bytes := bs.take n ++ r.bytes }.Writes (c :: cs) bs where
  accepted := by
    have := (List.prefix_append_right_inj (bs.take n)).mpr h.accepted
    rwa [List.take_append_drop] at this
  ok_iff := by
    rw [h.ok_iff]
    constructor
    · intro hr
      rw [hr, List.take_append_drop]
    · intro hr
      exact List.append_cancel_left (hr.trans (List.take_append_drop n bs).symm)
  left := h.left.trans (List.suffix_cons c cs)

/-- A write that is refused although there are bytes to write. -/
theorem Put.writes_refused (cs : List Call) {c : Call} {bs : List UInt8} (hbs : bs ≠ []) :
    ({ bytes := [], left := cs, ok := false } : Put).Writes (c :: cs) bs :=
  ⟨List.nil_prefix, ⟨nofun, fun h => absurd h.symm hbs⟩, List.suffix_cons c cs⟩

/-- A write that is accepted as a whole. -/
theorem Put.writes_all {cs cs' : List Call} (h : cs' <:+ cs) (bs : List UInt8) :
    ({ bytes := bs, left := cs', ok := true } : Put).Writes cs bs :=
  ⟨List.prefix_rfl, ⟨fun _ => rfl, fun _ => rfl⟩, h⟩

/-- A write goes on after an interrupted call. -/
theorem Put.Writes.retry {r : Put} {c : Call} {cs : List Call} {bs : List UInt8}
    (h : r.Writes cs bs) : r.Writes (c :: cs) bs :=
  ⟨h.accepted, h.ok_iff, h.left.trans (List.suffix_cons c cs)⟩

theorem writex_writes (cs : List Call) (bs : List UInt8) : (writex cs bs).Writes cs bs := by
  induction cs, bs using writex.induct with
  | case1 cs =>
      rw [writex]
      exact Put.writes_all List.suffix_rfl []
  | case2 b bs => exact Put.writes_all List.suffix_rfl (b :: bs)
  | case3 cs b bs ih => exact ih.retry
  | case4 cs b bs => exact Put.writes_refused cs (List.cons_ne_nil b bs)
  | case5 cs b bs => exact Put.writes_refused cs (List.cons_ne_nil b bs)
  | case6 n cs b bs ih => exact ih.after

theorem bulkWrite_writes (cs : List Call) {bs : List UInt8} (hbs : bs ≠ []) :
    (bulkWrite cs bs).Writes cs bs := by
  induction cs, bs using bulkWrite.induct with
  | case1 bs => exact Put.writes_all List.suffix_rfl bs
  | case2 cs bs ih => exact (ih hbs).retry
  | case3 cs bs => exact Put.writes_refused cs hbs
  | case4 n cs bs h =>
      rw [bulkWrite, if_pos h]
      exact Put.writes_all (List.suffix_cons _ cs) bs
  | case5 n cs bs h ih =>
      rw [bulkWrite, if_neg h]
      have hdrop : bs.drop n ≠ [] := by
        rw [Ne, List.drop_eq_nil_iff]
        exact h
      exact (ih hdrop).after

theorem usbAdbWrite_writes (cs : List Call) {bs : List UInt8} (hbs : bs ≠ []) :
    (usbAdbWrite cs bs).Writes cs bs := by
  induction cs, bs using usbAdbWrite.induct with
  | case1 bs => exact Put.writes_all List.suffix_rfl bs
  | case2 cs bs ih => exact (ih hbs).retry
  | case3 cs bs => exact Put.writes_refused cs hbs
  | case4 n cs bs =>
      refine ⟨List.take_prefix n bs, ?_, List.suffix_cons _ cs⟩
      rw [usbAdbWrite, decide_eq_true_iff, List.take_eq_self_iff]

theorem usbWrite_writes (h : UsbHandle) (cs : List Call) {bs : List UInt8} (hbs : bs ≠ []) :
    (usbWrite h cs bs).Writes cs bs := by
  cases h with
  | ffs => exact bulkWrite_writes cs hbs
  | adb => exact usbAdbWrite_writes cs hbs

/-! ### The header on the wire -/

/-- A word is put together from its bytes. -/
theorem joinBytes_toUInt8 (w : UInt32) :
    joinBytes w.toUInt8 (w >>> 8).toUInt8 (w >>> 16).toUInt8 (w >>> 24).toUInt8 = w := by
  apply UInt32.eq_of_toBitVec_eq
  apply BitVec.eq_of_getLsbD_eq
  intro i hi
  interval_cases i <;> simp [joinBytes, -UInt32.toUInt32_toUInt8]

@[simp] theorem H4_H4 (w : UInt32) : H4 (H4 w) = w := by
  apply UInt32.eq_of_toBitVec_eq
  apply BitVec.eq_of_getLsbD_eq
  intro i hi
  interval_cases i <;> simp [H4]

/-- A swapped word of a big-endian machine lies in memory as the word of a little-endian
one. -/
theorem storeWord_H4 (w : UInt32) : storeWord .big (H4 w) = storeWord .little w := by
  simp only [storeWord, List.cons.injEq, and_true]
  refine ⟨?_, ?_, ?_, ?_⟩ <;>
  · apply UInt8.eq_of_toBitVec_eq
    apply BitVec.eq_of_getLsbD_eq
    intro i hi
    interval_cases i <;> simp [H4]

@[simp] theorem length_storeWord (o : ByteOrder) (w : UInt32) :
    (storeWord o w).length = 4 := by
  cases o <;> rfl

/-- A word is read back from memory. -/
theorem loadWord_storeWord (o : ByteOrder) (w : UInt32) (bs : List UInt8) :
    loadWord o (storeWord o w ++ bs) = w := by
  cases o with
  | little => exact joinBytes_toUInt8 w
  | big => exact joinBytes_toUInt8 w

@[simp] theorem length_image (o : ByteOrder) (m : AMessage) : (m.image o).length = 24 := by
  simp [AMessage.image]

theorem image_ne_nil (o : ByteOrder) (m : AMessage) : m.image o ≠ [] := by
  intro hnil
  have hlen := length_image o m
  rw [hnil] at hlen
  cases hlen

/-- The header on the wire is the same whatever machine wrote it. -/
theorem image_fixEndians (o : ByteOrder) (m : AMessage) :
    (fixEndians o m).image o = m.image .little := by
  cases o with
  | little => rfl
  | big => simp [AMessage.image, fixEndians, storeWord_H4]

theorem fixEndians_fixEndians (o : ByteOrder) (m : AMessage) :
    fixEndians o (fixEndians o m) = m := by
  cases o with
  | little => rfl
  | big => simp [fixEndians]

/-- A header is read back from memory. -/
theorem load_image (o : ByteOrder) (m : AMessage) : AMessage.load o (m.image o) = m := by
  have hdrop : ∀ (w : UInt32) (n : Nat) (bs : List UInt8),
      (storeWord o w ++ bs).drop (n + 4) = bs.drop n := by
    intro w n bs
    rw [← length_storeWord o w, Nat.add_comm, ← List.drop_drop, List.drop_left]
  have hlast := loadWord_storeWord o m.magic []
  rw [List.append_nil] at hlast
  simp only [AMessage.load, AMessage.image, hdrop, loadWord_storeWord, List.drop_zero, hlast]

/-- A header is read back from the wire on a machine of any byte order. -/
theorem fixEndians_load (o : ByteOrder) (m : AMessage) :
    fixEndians o (AMessage.load o (m.image .little)) = m := by
  rw [← image_fixEndians o m, load_image, fixEndians_fixEndians]

/-- Swapping does not change whether there is a payload. -/
theorem fixEndians_dataLength_eq_zero (o : ByteOrder) (m : AMessage) :
    (fixEndians o m).dataLength = 0 ↔ m.dataLength = 0 := by
  cases o with
  | little => rfl
  | big =>
      constructor
      · intro h
        rw [← H4_H4 m.dataLength, show H4 m.dataLength = 0 from h]
        rfl
      · intro h
        rw [fixEndians, h]
        rfl

/-! ### Calls that split a stream -/

/-- The call transfers something or is interrupted. -/
def Call.flows : Call → Bool
  | .upTo n => 0 < n
  | .eintr => true
  | .error => false

/-- The call transfers all that a packet's header or payload needs, or is interrupted. -/
def Call.whole : Call → Bool
  | .upTo n => MAX_PAYLOAD ≤ n
  | .eintr => true
  | .error => false

/-- The ways of splitting a stream that a transport copes with: any for TCP and for
FunctionFS, none for the older device. -/
def Channel.Allows : Channel → List Call → Prop
  | .usb .adb, cs => ∀ c ∈ cs, c.whole = true
  | _, cs => ∀ c ∈ cs, c.flows = true

theorem Channel.Allows.suffix {k : Channel} {cs cs' : List Call} (h : k.Allows cs)
    (hs : cs' <:+ cs) : k.Allows cs' := by
  match k with
  | .tcp => exact fun c hc => h c (hs.subset hc)
  | .usb .ffs => exact fun c hc => h c (hs.subset hc)
  | .usb .adb => exact fun c hc => h c (hs.subset hc)

theorem writex_ok {cs : List Call} (h : ∀ c ∈ cs, c.flows = true) (bs : List UInt8) :
    (writex cs bs).ok = true := by
  induction cs, bs using writex.induct with
  | case1 cs => simp [writex]
  | case2 b bs => rfl
  | case3 cs b bs ih => exact ih (List.forall_mem_cons.mp h).2
  | case4 cs b bs => cases (List.forall_mem_cons.mp h).1
  | case5 cs b bs => cases (List.forall_mem_cons.mp h).1
  | case6 n cs b bs ih => exact ih (List.forall_mem_cons.mp h).2

theorem usbWrite_ok (h : UsbHandle) {cs : List Call} (hcs : (Channel.usb h).Allows cs)
    {bs : List UInt8} (hbs : bs.length ≤ MAX_PAYLOAD) : (usbWrite h cs bs).ok = true := by
  cases h with
  | ffs =>
      induction cs, bs using bulkWrite.induct with
      | case1 bs => rfl
      | case2 cs bs ih => exact ih hbs (List.forall_mem_cons.mp hcs).2
      | case3 cs bs => cases (List.forall_mem_cons.mp hcs).1
      | case4 n cs bs hn => simp [usbWrite, bulkWrite, hn]
      | case5 n cs bs hn ih =>
          have hdrop : (bs.drop n).length ≤ MAX_PAYLOAD := by
            rw [List.length_drop]
            omega
          simpa [usbWrite, bulkWrite, hn] using ih hdrop (List.forall_mem_cons.mp hcs).2
  | adb =>
      induction cs, bs using usbAdbWrite.induct with
      | case1 bs => rfl
      | case2 cs bs ih => exact ih hbs (List.forall_mem_cons.mp hcs).2
      | case3 cs bs => cases (List.forall_mem_cons.mp hcs).1
      | case4 n cs bs =>
          have hn : MAX_PAYLOAD ≤ n := of_decide_eq_true (List.forall_mem_cons.mp hcs).1
          exact decide_eq_true (hbs.trans hn)

/-! ### What a read does -/

/-- What a read that succeeds does with the calls `cs` and the stream `st`: it takes `len`
bytes off the stream. -/
def Got.Takes (r : Got (List UInt8)) (cs : List Call) (len : Nat) (st : List UInt8) : Prop :=
  ∀ bs rest left, r = .got bs rest left → st = bs ++ rest ∧ bs.length = len ∧ left <:+ cs

/-- A read goes on after a call that transferred `bs`. -/
theorem Got.Takes.after {r : Got (List UInt8)} {c : Call} {cs : List Call} {len : Nat}
    {st bs : List UInt8} (h : r.Takes cs (len - bs.length) (st.drop bs.length))
    (hbs : bs <+: st) (hlen : bs.length ≤ len) : (r.after bs).Takes (c :: cs) len st := by
  intro bs' rest left hr
  cases r with
  | got a rest' left' =>
      obtain ⟨rfl, rfl, rfl⟩ := Got.got.inj hr
      obtain ⟨hst, ha, hleft⟩ := h a rest' left' rfl
      refine ⟨?_, ?_, hleft.trans (List.suffix_cons c cs)⟩
      · rw [List.append_assoc, ← hst]
        exact (List.prefix_iff_eq_append.mp hbs).symm
      · rw [List.length_append, ha]
        omega
  | failed => cases hr
  | hangs => cases hr

/-- A read goes on after an interrupted call. -/
theorem Got.Takes.retry {r : Got (List UInt8)} {c : Call} {cs : List Call} {len : Nat}
    {st : List UInt8} (h : r.Takes cs len st) : r.Takes (c :: cs) len st := by
  intro bs rest left hr
  obtain ⟨hst, hbs, hleft⟩ := h bs rest left hr
  exact ⟨hst, hbs, hleft.trans (List.suffix_cons c cs)⟩

/-- A read that is answered at once. -/
theorem Got.takes_all {cs cs' : List Call} (hcs : cs' <:+ cs) {len : Nat} {st : List UInt8}
    (hlen : len ≤ st.length) : (Got.got (st.take len) (st.drop len) cs').Takes cs len st := by
  intro bs rest left hr
  obtain ⟨rfl, rfl, rfl⟩ := Got.got.inj hr
  exact ⟨(List.take_append_drop len st).symm, List.length_take_of_le hlen, hcs⟩

theorem Got.takes_failed {cs : List Call} {len : Nat} {st : List UInt8} :
    (Got.failed : Got (List UInt8)).Takes cs len st := nofun

theorem Got.takes_hangs {cs : List Call} {len : Nat} {st : List UInt8} :
    (Got.hangs : Got (List UInt8)).Takes cs len st := nofun

/-- The bytes one call transfers. -/
theorem take_min_prefix (n len : Nat) (st : List UInt8) :
    st.take (min n len) <+: st ∧ (st.take (min n len)).length ≤ len := by
  refine ⟨List.take_prefix _ _, ?_⟩
  rw [List.length_take]
  omega

/-- The bytes of a call that transferred all that was left to read. -/
theorem take_min_of_length {n len : Nat} {st : List UInt8}
    (h : (st.take (min n len)).length = len) :
    len ≤ st.length ∧ st.take (min n len) = st.take len := by
  rw [List.length_take] at h
  refine ⟨by omega, ?_⟩
  rw [show min n len = len by omega]

theorem readx_takes (cs : List Call) (len : Nat) (st : List UInt8) :
    (readx cs len st).Takes cs len st := by
  induction cs, len, st using readx.induct with
  | case1 cs st =>
      rw [readx]
      exact Got.takes_all List.suffix_rfl (Nat.zero_le _)
  | case2 len st h =>
      rw [readx, if_pos h]
      exact Got.takes_all List.suffix_rfl h
  | case3 len st h =>
      rw [readx, if_neg h]
      exact Got.takes_failed
  | case4 cs len st ih => exact ih.retry
  | case5 cs len st => exact Got.takes_failed
  | case6 n cs len st bs h =>
      rw [readx, if_pos h]
      exact Got.takes_failed
  | case7 n cs len st bs h ih =>
      rw [readx, if_neg h]
      obtain ⟨hpre, hle⟩ := take_min_prefix n (len + 1) st
      exact ih.after hpre hle

theorem bulkRead_takes (cs : List Call) (len : Nat) (st : List UInt8) :
    (bulkRead cs len st).Takes cs len st := by
  induction cs, len, st using bulkRead.induct with
  | case1 len st h =>
      rw [bulkRead, if_pos h]
      exact Got.takes_all List.suffix_rfl h
  | case2 len st h =>
      rw [bulkRead, if_neg h]
      exact Got.takes_hangs
  | case3 cs len st ih => exact ih.retry
  | case4 cs len st => exact Got.takes_failed
  | case5 n cs len st bs h =>
      obtain ⟨hlen, hbs⟩ := take_min_of_length h
      rw [bulkRead, if_pos h, h, hbs]
      exact Got.takes_all (List.suffix_cons _ cs) hlen
  | case6 n cs len st bs h ih =>
      rw [bulkRead, if_neg h]
      obtain ⟨hpre, hle⟩ := take_min_prefix n len st
      exact ih.after hpre hle

theorem usbAdbRead_takes (cs : List Call) (len : Nat) (st : List UInt8) :
    (usbAdbRead cs len st).Takes cs len st := by
  induction cs, len, st using usbAdbRead.induct with
  | case1 len st h =>
      rw [usbAdbRead, if_pos h]
      exact Got.takes_all List.suffix_rfl h
  | case2 len st h =>
      rw [usbAdbRead, if_neg h]
      exact Got.takes_failed
  | case3 cs len st ih => exact ih.retry
  | case4 cs len st => exact Got.takes_failed
  | case5 n cs len st bs h =>
      obtain ⟨hlen, hbs⟩ := take_min_of_length h
      rw [usbAdbRead, if_pos h, h, hbs]
      exact Got.takes_all (List.suffix_cons _ cs) hlen
  | case6 n cs len st bs h =>
      rw [usbAdbRead, if_neg h]
      exact Got.takes_failed

theorem usbRead_takes (h : UsbHandle) (cs : List Call) (len : Nat) (st : List UInt8) :
    (usbRead h cs len st).Takes cs len st := by
  cases h with
  | ffs => exact bulkRead_takes cs len st
  | adb => exact usbAdbRead_takes cs len st

/-- A read succeeds. -/
def Got.Succeeds {α : Type} (r : Got α) : Prop := ∃ a rest left, r = .got a rest left

theorem Got.Succeeds.after {r : Got (List UInt8)} (h : r.Succeeds) (bs : List UInt8) :
    (r.after bs).Succeeds := by
  obtain ⟨a, rest, left, rfl⟩ := h
  exact ⟨bs ++ a, rest, left, rfl⟩

/-- After a call that transferred something, the rest of the stream still holds what is to
be read. -/
theorem length_drop_take_min {n len : Nat} {st : List UInt8} (hlen : len ≤ st.length) :
    len - (st.take (min n len)).length ≤ (st.drop (st.take (min n len)).length).length := by
  rw [List.length_drop, List.length_take]
  omega

theorem readx_succeeds {cs : List Call} (h : ∀ c ∈ cs, c.flows = true) {len : Nat}
    {st : List UInt8} (hlen : len ≤ st.length) : (readx cs len st).Succeeds := by
  induction cs, len, st using readx.induct with
  | case1 cs st =>
      rw [readx]
      exact ⟨_, _, _, rfl⟩
  | case2 len st hl =>
      rw [readx, if_pos hl]
      exact ⟨_, _, _, rfl⟩
  | case3 len st hl => exact absurd hlen hl
  | case4 cs len st ih => exact ih (List.forall_mem_cons.mp h).2 hlen
  | case5 cs len st => cases (List.forall_mem_cons.mp h).1
  | case6 n cs len st bs hbs =>
      have hn : 0 < n := of_decide_eq_true (List.forall_mem_cons.mp h).1
      have hl : (st.take (min n (len + 1))).length = 0 := List.length_eq_zero_iff.mpr hbs
      rw [List.length_take] at hl
      omega
  | case7 n cs len st bs hbs ih =>
      rw [readx, if_neg hbs]
      exact (ih (List.forall_mem_cons.mp h).2 (length_drop_take_min hlen)).after _

theorem usbRead_succeeds (h : UsbHandle) {cs : List Call} (hcs : (Channel.usb h).Allows cs)
    {len : Nat} {st : List UInt8} (hlen : len ≤ st.length) (hmax : len ≤ MAX_PAYLOAD) :
    (usbRead h cs len st).Succeeds := by
  cases h with
  | ffs =>
      rw [usbRead]
      induction cs, len, st using bulkRead.induct with
      | case1 len st hl =>
          rw [bulkRead, if_pos hl]
          exact ⟨_, _, _, rfl⟩
      | case2 len st hl => exact absurd hlen hl
      | case3 cs len st ih => exact ih hlen hmax (List.forall_mem_cons.mp hcs).2
      | case4 cs len st => cases (List.forall_mem_cons.mp hcs).1
      | case5 n cs len st bs hl =>
          rw [bulkRead, if_pos hl]
          exact ⟨_, _, _, rfl⟩
      | case6 n cs len st bs hl ih =>
          rw [bulkRead, if_neg hl]
          exact (ih (length_drop_take_min hlen) ((Nat.sub_le ..).trans hmax)
            (List.forall_mem_cons.mp hcs).2).after _
  | adb =>
      rw [usbRead]
      induction cs, len, st using usbAdbRead.induct with
      | case1 len st hl =>
          rw [usbAdbRead, if_pos hl]
          exact ⟨_, _, _, rfl⟩
      | case2 len st hl => exact absurd hlen hl
      | case3 cs len st ih => exact ih hlen hmax (List.forall_mem_cons.mp hcs).2
      | case4 cs len st => cases (List.forall_mem_cons.mp hcs).1
      | case5 n cs len st bs hl =>
          rw [usbAdbRead, if_pos hl]
          exact ⟨_, _, _, rfl⟩
      | case6 n cs len st bs hl =>
          have hn : MAX_PAYLOAD ≤ n := of_decide_eq_true (List.forall_mem_cons.mp hcs).1
          refine absurd ?_ hl
          change (st.take (min n len)).length = len
          rw [List.length_take]
          omega

/-! ### One packet -/

/-- The bytes of a packet on the wire. -/
def APacket.wire (p : APacket) : List UInt8 := p.msg.image .little ++ p.body

/-- `remote_write` writes a packet's bytes. -/
theorem remoteWrite_writes (k : Channel) (o : ByteOrder) {p : APacket} (hp : p.Fits)
    (cs : List Call) : (remoteWrite k o p cs).Writes cs p.wire := by
  cases k with
  | tcp =>
      rw [remoteWrite, image_fixEndians]
      exact writex_writes cs _
  | usb h =>
      have hh := usbWrite_writes h cs (image_ne_nil .little p.msg)
      rw [remoteWrite, remoteWriteUsb, image_fixEndians]
      simp only [fixEndians_dataLength_eq_zero]
      by_cases hok : (usbWrite h cs (p.msg.image .little)).ok = false
      · rw [if_pos hok]
        refine ⟨hh.accepted.trans (List.prefix_append ..), ?_, hh.left⟩
        -- a header that was refused in part is no whole packet
        have hne : (usbWrite h cs (p.msg.image .little)).bytes ≠ p.msg.image .little :=
          fun heq => by simp [hh.ok_iff.mpr heq] at hok
        refine ⟨fun ht => by simp [ht] at hok, fun heq => absurd ?_ hne⟩
        refine hh.accepted.eq_of_length_le ?_
        rw [heq, APacket.wire, List.length_append]
        exact Nat.le_add_right ..
      · have hbytes := hh.ok_iff.mp (Bool.eq_true_of_not_eq_false hok)
        rw [if_neg hok]
        split
        · next hz =>
          have hwire : p.wire = p.msg.image .little := by
            simp [APacket.wire, APacket.body, hz]
          rw [hwire]
          exact hh
        · next hz =>
          have hpay : p.body ≠ [] := by
            have hlen := List.length_take_of_le hp.2
            intro hnil
            rw [APacket.body] at hnil
            rw [hnil, List.length_nil] at hlen
            exact hz (UInt32.toNat_inj.mp hlen.symm)
          have hd := usbWrite_writes h (usbWrite h cs (p.msg.image .little)).left hpay
          rw [hbytes]
          refine ⟨(List.prefix_append_right_inj _).mpr hd.accepted, ?_, hd.left.trans hh.left⟩
          rw [APacket.wire, List.append_cancel_left_eq]
          exact hd.ok_iff

/-- Every split of the stream that the transport copes with lets a packet through. -/
theorem remoteWrite_ok (k : Channel) (o : ByteOrder) {p : APacket} (hp : p.Fits)
    {cs : List Call} (hcs : k.Allows cs) : (remoteWrite k o p cs).ok = true := by
  cases k with
  | tcp => exact writex_ok hcs _
  | usb h =>
      have hlen : (p.msg.image .little).length ≤ MAX_PAYLOAD := by
        rw [length_image]
        decide
      have hh := usbWrite_ok h hcs hlen
      rw [remoteWrite, remoteWriteUsb, image_fixEndians, if_neg (by simp [hh])]
      split
      · exact hh
      · have hleft := (usbWrite_writes h cs (image_ne_nil .little p.msg)).left
        refine usbWrite_ok h (hcs.suffix hleft) ?_
        exact (List.length_take_le ..).trans hp.1

section Reading

variable {rd rh : List Call → Nat → List UInt8 → Got (List UInt8)} {k : Channel}

/-- A function that reads as many bytes as asked for, if it succeeds. -/
def Reads (rd : List Call → Nat → List UInt8 → Got (List UInt8)) : Prop :=
  ∀ cs len st, (rd cs len st).Takes cs len st

/-- A function that reads what a packet needs, however the stream is split. -/
def Answers (k : Channel) (rd : List Call → Nat → List UInt8 → Got (List UInt8)) : Prop :=
  ∀ cs len st, k.Allows cs → len ≤ st.length → len ≤ MAX_PAYLOAD → (rd cs len st).Succeeds

/-- Bytes at the start of the stream are what is read. -/
theorem Reads.exact (hr : Reads rd) (ha : Answers k rd) {cs : List Call} (hcs : k.Allows cs)
    {bs : List UInt8} (hmax : bs.length ≤ MAX_PAYLOAD) (rest : List UInt8) :
    ∃ left, left <:+ cs ∧ rd cs bs.length (bs ++ rest) = .got bs rest left := by
  have hlen : bs.length ≤ (bs ++ rest).length := by
    rw [List.length_append]
    exact Nat.le_add_right ..
  obtain ⟨bs', rest', left, heq⟩ := ha cs bs.length (bs ++ rest) hcs hlen hmax
  obtain ⟨happ, hlen', hleft⟩ := hr cs bs.length (bs ++ rest) bs' rest' left heq
  obtain ⟨rfl, rfl⟩ := List.append_inj happ hlen'.symm
  exact ⟨left, hleft, heq⟩

/-- A packet at the start of the stream is what is read. -/
theorem remoteReadWith_wire (hrh : Reads rh) (hah : Answers k rh) (hrd : Reads rd)
    (had : Answers k rd) (o : ByteOrder) {p : APacket} (hp : p.Fits)
    (hh : checkHeader p.msg = true) (hd : checkData p.msg p.body = true)
    {cs : List Call} (hcs : k.Allows cs) (rest : List UInt8) :
    ∃ left, left <:+ cs ∧
      remoteReadWith rh rd o cs (p.wire ++ rest) = .got (p.msg, p.body) rest left := by
  have himg : (p.msg.image .little).length ≤ MAX_PAYLOAD := by
    rw [length_image]
    decide
  have hpay : p.body.length = p.msg.dataLength.toNat := List.length_take_of_le hp.2
  obtain ⟨left, hleft, heq⟩ := hrh.exact hah hcs himg (p.body ++ rest)
  obtain ⟨left', hleft', heq'⟩ := hrd.exact had (hcs.suffix hleft) (hpay ▸ hp.1) rest
  refine ⟨left', hleft'.trans hleft, ?_⟩
  rw [length_image] at heq
  rw [hpay] at heq'
  simp [remoteReadWith, APacket.wire, heq, heq', Got.andThen, fixEndians_load, hh, hd]

/-- What every accepted packet satisfies, and what was consumed for it. -/
theorem remoteReadWith_accepted (hrh : Reads rh) (hrd : Reads rd) {o : ByteOrder}
    {cs left : List Call} {st data rest : List UInt8} {m : AMessage}
    (h : remoteReadWith rh rd o cs st = .got (m, data) rest left) :
    checkHeader m = true ∧ checkData m data = true ∧ data.length = m.dataLength.toNat ∧
      ∃ header, header.length = 24 ∧ st = header ++ (data ++ rest) := by
  rw [remoteReadWith] at h
  cases hr : rh cs 24 st with
  | failed => simp [hr, Got.andThen] at h
  | hangs => simp [hr, Got.andThen] at h
  | got header st' cs' =>
      obtain ⟨hst, hlen, -⟩ := hrh _ _ _ _ _ _ hr
      simp only [hr, Got.andThen] at h
      split at h
      · next hh =>
        split at h
        · next d st'' cs'' hd =>
          obtain ⟨hst', hlen', -⟩ := hrd _ _ _ _ _ _ hd
          split at h
          · next hdata =>
            simp only [Got.got.injEq, Prod.mk.injEq] at h
            obtain ⟨⟨rfl, rfl⟩, rfl, rfl⟩ := h
            exact ⟨hh, hdata, hlen', header, hlen, by rw [hst, hst']⟩
          · cases h
        · cases h
        · cases h
      · cases h

end Reading

theorem reads_readx : Reads readx := readx_takes

theorem answers_readx : Answers .tcp readx := fun _ _ _ hcs hlen _ => readx_succeeds hcs hlen

theorem reads_usbRead (h : UsbHandle) : Reads (usbRead h) := usbRead_takes h

theorem answers_usbRead (h : UsbHandle) : Answers (.usb h) (usbRead h) :=
  fun _ _ _ hcs hlen hmax => usbRead_succeeds h hcs hlen hmax

theorem reads_readPayload (h : UsbHandle) : Reads (readPayload h) := by
  intro cs len st
  rw [readPayload]
  split
  · next hz =>
    rw [hz]
    exact Got.takes_all List.suffix_rfl (Nat.zero_le _)
  · exact usbRead_takes h cs len st

theorem answers_readPayload (h : UsbHandle) : Answers (.usb h) (readPayload h) := by
  intro cs len st hcs hlen hmax
  rw [readPayload]
  split
  · exact ⟨_, _, _, rfl⟩
  · exact usbRead_succeeds h hcs hlen hmax

/-- A packet at the start of the stream is what `remote_read` returns. -/
theorem remoteRead_wire (k : Channel) (o : ByteOrder) {p : APacket} (hp : p.Fits)
    (hh : checkHeader p.msg = true) (hd : checkData p.msg p.body = true)
    {cs : List Call} (hcs : k.Allows cs) (rest : List UInt8) :
    ∃ left, left <:+ cs ∧
      remoteRead k o cs (p.wire ++ rest) = .got (p.msg, p.body) rest left := by
  cases k with
  | tcp =>
      exact remoteReadWith_wire reads_readx answers_readx reads_readx answers_readx o hp hh hd
        hcs rest
  | usb h =>
      exact remoteReadWith_wire (reads_usbRead h) (answers_usbRead h) (reads_readPayload h)
        (answers_readPayload h) o hp hh hd hcs rest

/-- What every packet that `remote_read` accepts satisfies. -/
theorem remoteRead_accepted {k : Channel} {o : ByteOrder} {cs left : List Call}
    {st data rest : List UInt8} {m : AMessage}
    (h : remoteRead k o cs st = .got (m, data) rest left) :
    checkHeader m = true ∧ checkData m data = true ∧ data.length = m.dataLength.toNat ∧
      ∃ header, header.length = 24 ∧ st = header ++ (data ++ rest) := by
  cases k with
  | tcp => exact remoteReadWith_accepted reads_readx reads_readx h
  | usb u => exact remoteReadWith_accepted (reads_usbRead u) (reads_readPayload u) h

/-- The main loop receives no other packets than those `remote_read` accepts. -/
theorem accepted_of_remoteRead {k : Channel} {o : ByteOrder} {cs left : List Call}
    {st data rest : List UInt8} {m : AMessage}
    (h : remoteRead k o cs st = .got (m, data) rest left) : Accepted m data := by
  obtain ⟨hh, hd, hlen, -⟩ := remoteRead_accepted h
  rw [checkHeader, Bool.and_eq_true, decide_eq_true_iff, decide_eq_true_iff] at hh
  rw [checkData, decide_eq_true_iff] at hd
  exact ⟨hh.1, hh.2, hlen.ge, hd.symm⟩

/-! ### Lists of packets -/

/-- `send_packet` makes a packet that the checks of the other side accept. -/
theorem checks_finish {p : APacket} (hp : p.Fits) :
    p.finish.Fits ∧ checkHeader p.finish.msg = true ∧
      checkData p.finish.msg p.finish.body = true := by
  have hpay : p.body.take p.msg.dataLength.toNat = p.body := by
    rw [APacket.body, List.take_take, min_self]
  refine ⟨hp, ?_, ?_⟩
  · simp [checkHeader, APacket.finish, hp.1]
  · rw [checkData, decide_eq_true_iff]
    exact congrArg dataSum hpay

/-- Packets written one after the other and read again one after the other, with the ends
`ws` and `rs` of the system calls: every write succeeds, and the packets read are those
written, with nothing left of the stream. -/
def RoundTrips (k : Channel) (o o' : ByteOrder) (ps : List APacket)
    (ws rs : List Call) : Prop :=
  (writeAll k o ps ws).ok = true ∧
    ∃ left, readAll k o' ps.length rs (writeAll k o ps ws).bytes =
      .got (ps.map fun p => (p.msg, p.body)) [] left

/-- The bytes of a list of packets are written. -/
theorem writeAll_wire (k : Channel) (o : ByteOrder) {ps : List APacket}
    (hps : ∀ p ∈ ps, p.Fits) {ws : List Call} (hws : k.Allows ws) :
    (writeAll k o ps ws).ok = true ∧ (writeAll k o ps ws).bytes = ps.flatMap APacket.wire := by
  induction ps generalizing ws with
  | nil => exact ⟨rfl, rfl⟩
  | cons p ps ih =>
      obtain ⟨hp, hps⟩ := List.forall_mem_cons.mp hps
      have hok := remoteWrite_ok k o hp hws
      have hw := remoteWrite_writes k o hp ws
      obtain ⟨hok', hbytes⟩ := ih hps (hws.suffix hw.left)
      constructor
      · simp [writeAll, hok, hok']
      · simp [writeAll, hw.ok_iff.mp hok, hbytes]

/-- The packets whose bytes make up a stream are read off it. -/
theorem readAll_wire (k : Channel) (o : ByteOrder) {ps : List APacket}
    (hps : ∀ p ∈ ps, p.Fits ∧ checkHeader p.msg = true ∧ checkData p.msg p.body = true)
    {rs : List Call} (hrs : k.Allows rs) (rest : List UInt8) :
    ∃ left, readAll k o ps.length rs (ps.flatMap APacket.wire ++ rest) =
      .got (ps.map fun p => (p.msg, p.body)) rest left := by
  induction ps generalizing rs with
  | nil => exact ⟨rs, rfl⟩
  | cons p ps ih =>
      obtain ⟨⟨hp, hh, hd⟩, hps⟩ := List.forall_mem_cons.mp hps
      obtain ⟨left, hleft, heq⟩ :=
        remoteRead_wire k o hp hh hd hrs (ps.flatMap APacket.wire ++ rest)
      obtain ⟨left', heq'⟩ := ih hps (hrs.suffix hleft)
      refine ⟨left', ?_⟩
      simp [readAll, heq, heq', Got.andThen]

/-- **Framing.** Packets finished by `send_packet` survive the way over every transport
between machines of any byte orders, however the stream is split; over the older USB
device, whose reads and writes must be whole, if no call is short. Whatever a stream holds,
each packet `remote_read` accepts has passed the checks, and its header and payload are
what was consumed. -/
theorem wire_framing (k : Channel) (o o' : ByteOrder) :
    (∀ (ps : List APacket) (ws rs : List Call), (∀ p ∈ ps, p.Fits) → k.Allows ws →
      k.Allows rs →
      RoundTrips k o o' (ps.map APacket.finish) ws rs) ∧
    ∀ (cs left : List Call) (st data rest : List UInt8) (m : AMessage),
      remoteRead k o cs st = .got (m, data) rest left →
        m.magic = m.command ^^^ 0xffffffff ∧ m.dataLength.toNat ≤ MAX_PAYLOAD ∧
        data.length = m.dataLength.toNat ∧ m.dataCheck = dataSum data ∧
        ∃ taken, taken.length = 24 + m.dataLength.toNat ∧ st = taken ++ rest := by
  constructor
  · intro ps ws rs hps hws hrs
    have hfin : ∀ p ∈ ps.map APacket.finish,
        p.Fits ∧ checkHeader p.msg = true ∧ checkData p.msg p.body = true := by
      intro p hp
      obtain ⟨q, hq, rfl⟩ := List.mem_map.mp hp
      exact checks_finish (hps q hq)
    obtain ⟨hok, hbytes⟩ := writeAll_wire k o (fun p hp => (hfin p hp).1) hws
    obtain ⟨left, heq⟩ := readAll_wire k o' hfin hrs []
    rw [List.append_nil, ← hbytes] at heq
    exact ⟨hok, left, heq⟩
  · intro cs left st data rest m h
    obtain ⟨hh, hd, hlen, header, hheader, hst⟩ := remoteRead_accepted h
    obtain ⟨hmagic, hmax⟩ : m.magic = m.command ^^^ 0xffffffff ∧
      m.dataLength.toNat ≤ MAX_PAYLOAD := by
      simpa [checkHeader] using hh
    refine ⟨hmagic, hmax, hlen, ?_, header ++ data, ?_, ?_⟩
    · rw [checkData, decide_eq_true_iff, ← hlen, List.take_length] at hd
      exact hd.symm
    · rw [List.length_append, hheader, hlen]
    · rw [hst, List.append_assoc]

/-- A big-endian device and a little-endian host, over a connection that cuts everything
into small pieces. -/
theorem wire_framing_pieces :
    RoundTrips .tcp .big .little
      ([{ addr := 0, msg := { command := A_WRTE, arg0 := 1, arg1 := 2, dataLength := 3 },
          data := [7, 8, 9, 10] },
        { addr := 1, msg := { command := A_OKAY, arg0 := 1, arg1 := 2 } }].map APacket.finish)
      [.upTo 5, .eintr, .upTo 1, .upTo 20] [.eintr, .upTo 23, .upTo 1, .upTo 2] :=
  (wire_framing .tcp .big .little).1 _ _ _ (by decide) (by simp [Channel.Allows, Call.flows])
    (by simp [Channel.Allows, Call.flows])

/-- On the older USB device a header that arrives in two pieces is an error. -/
theorem short_read_not_framed :
    ¬ ∀ (k : Channel) (o o' : ByteOrder) (ps : List APacket) (ws rs : List Call),
      (∀ p ∈ ps, p.Fits) → (∀ c ∈ ws, c.flows = true) → (∀ c ∈ rs, c.flows = true) →
        RoundTrips k o o' (ps.map APacket.finish) ws rs := by
  intro h
  let p : APacket := { addr := 0, msg := { command := A_OKAY, arg0 := 1, arg1 := 2 } }
  have hfail : readAll (.usb .adb) .little 1 [.upTo 10]
      (writeAll (.usb .adb) .little [p.finish] []).bytes = .failed := by
    decide +kernel
  obtain ⟨-, left, heq⟩ :=
    h (.usb .adb) .little .little [p] [] [.upTo 10] (by decide) (by decide) (by decide)
  cases hfail.symm.trans heq

end Adbd
