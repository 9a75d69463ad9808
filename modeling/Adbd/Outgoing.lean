import Adbd.Wire
import Mathlib.Data.List.Induction

/-!
# The Outgoing Stream

The packet loop of `input_thread` with the bytes its connection accepts. The loop hands
each packet that passes the gate to `write_to_remote` and does not look at the result, so a
packet that was refused in part is followed by the next one. The stream stays a prefix of
the packets' bytes exactly as long as the connection, once it has refused a part of a
packet, refuses all that follows.

## Main definitions

* `Delivery`: a packet read from the pipe, and how the system calls made for it end.
* `Sender`, `Sender.deliver`, `Sender.run`: the loop.
* `InStep`: the accepted bytes stay a prefix of the packets' bytes.
* `StaysShut`: the connection refuses everything after a packet it refused in part.

## Main results

* `remoteWrite_nil_iff`: when a packet is refused as a whole.
* `outgoing_in_step_iff`: `InStep` and `StaysShut` are the same.
-/

namespace Adbd

/-- A packet read from the pipe of the main loop, and how the system calls end that are
made if it is written to the connection. -/
structure Delivery where
  packet : APacket
  calls : List Call
  fits : packet.Fits

/-- The state of `input_thread` in its packet loop: the thread's own data, the packets handed
to `write_to_remote`, and the bytes the connection accepted. -/
structure Sender where
  life : Life
  passed : List APacket
  accepted : List UInt8
deriving DecidableEq, Repr

/-- The loop before its first packet. -/
def Sender.start (l : Life) : Sender where
  life := l
  passed := []
  accepted := []

/-- The packet is one that the loop hands to `write_to_remote`. -/
def Sender.Passes (s : Sender) (p : APacket) : Prop :=
  s.life.inp = .reading ∧ p.msg.command ≠ A_SYNC ∧ s.life.active = true

instance (s : Sender) (p : APacket) : Decidable (s.Passes p) := by
  unfold Sender.Passes; infer_instance

/-- One turn of the loop. The result of `write_to_remote` is not looked at. -/
def Sender.deliver (k : Channel) (o : ByteOrder) (s : Sender) (d : Delivery) : Sender :=
  if s.life.inp = .reading then
    if s.Passes d.packet then
      { life := inputPacket s.life d.packet
        passed := s.passed ++ [d.packet]
        accepted := s.accepted ++ (remoteWrite k o d.packet d.calls).bytes }
    else { s with life := inputPacket s.life d.packet }
  else s

/-- The loop on a sequence of packets. -/
def Sender.run (k : Channel) (o : ByteOrder) (s : Sender) (ds : List Delivery) : Sender :=
  ds.foldl (Sender.deliver k o) s

/-- The bytes of the packets handed to `write_to_remote`. -/
def Sender.intended (s : Sender) : List UInt8 := s.passed.flatMap APacket.wire

theorem Sender.run_concat (k : Channel) (o : ByteOrder) (s : Sender) (ds : List Delivery)
    (d : Delivery) : s.run k o (ds ++ [d]) = (s.run k o ds).deliver k o d := by
  rw [Sender.run, List.foldl_concat]
  rfl

/-- The packets handed to `write_to_remote` are those of the thread's own record. -/
theorem Sender.deliver_toRemote (k : Channel) (o : ByteOrder) {s : Sender} (d : Delivery)
    (h : s.life.toRemote = s.passed) :
    (s.deliver k o d).life.toRemote = (s.deliver k o d).passed := by
  rw [Sender.deliver]
  split
  · next hr =>
    split
    · next hp =>
      obtain ⟨-, hcmd, hact⟩ := hp
      simp [inputPacket, hcmd, hact, h]
    · next hp =>
      have hgate : (inputPacket s.life d.packet).toRemote = s.life.toRemote := by
        rw [inputPacket]
        split
        · split
          · rfl
          · split <;> rfl
        · next hcmd =>
          rw [if_neg fun hact => hp ⟨hr, hcmd, hact⟩]
      rw [hgate, h]
  · exact h

/-- The loop hands over what the thread's own record says, in that order. -/
theorem Sender.run_toRemote (k : Channel) (o : ByteOrder) {l : Life} (hl : l.toRemote = [])
    (ds : List Delivery) :
    ((Sender.start l).run k o ds).life.toRemote = ((Sender.start l).run k o ds).passed := by
  induction ds using List.reverseRecOn with
  | nil => exact hl
  | append_singleton ds d ih =>
      rw [Sender.run_concat]
      exact Sender.deliver_toRemote k o d ih

/-! ### A packet refused as a whole -/

/-- The first calls refuse a non-empty write, without accepting a byte. -/
def refuses : Channel → List Call → Bool
  | _, [] => false
  | k, .eintr :: cs => refuses k cs
  | _, .error :: _ => true
  | .usb .ffs, .upTo 0 :: cs => refuses (.usb .ffs) cs
  | .tcp, .upTo n :: _ => n = 0
  | .usb .adb, .upTo n :: _ => n = 0
  | .usb .ffs, .upTo (_ + 1) :: _ => false

theorem writex_nil_iff (cs : List Call) {bs : List UInt8} (hbs : bs ≠ []) :
    (writex cs bs).bytes = [] ↔ refuses .tcp cs = true := by
  obtain ⟨b, bs, rfl⟩ := List.exists_cons_of_ne_nil hbs
  induction cs with
  | nil => simp [writex, refuses]
  | cons c cs ih =>
      cases c with
      | eintr => simpa [writex, refuses] using ih
      | error => simp [writex, refuses]
      | upTo n =>
          cases n with
          | zero => simp [writex, refuses]
          | succ n => simp [writex, refuses]

theorem usbWrite_nil_iff (h : UsbHandle) (cs : List Call) {bs : List UInt8} (hbs : bs ≠ []) :
    (usbWrite h cs bs).bytes = [] ↔ refuses (.usb h) cs = true := by
  obtain ⟨b, bs, rfl⟩ := List.exists_cons_of_ne_nil hbs
  induction cs with
  | nil => cases h <;> simp [usbWrite, bulkWrite, usbAdbWrite, refuses]
  | cons c cs ih =>
      cases h with
      | ffs =>
          cases c with
          | eintr => simpa [usbWrite, bulkWrite, refuses] using ih
          | error => simp [usbWrite, bulkWrite, refuses]
          | upTo n =>
              cases n with
              | zero => simpa [usbWrite, bulkWrite, refuses] using ih
              | succ n =>
                  simp only [usbWrite, bulkWrite, refuses]
                  split <;> simp
      | adb =>
          cases c with
          | eintr => simpa [usbWrite, usbAdbWrite, refuses] using ih
          | error => simp [usbWrite, usbAdbWrite, refuses]
          | upTo n =>
              cases n with
              | zero => simp [usbWrite, usbAdbWrite, refuses]
              | succ n => simp [usbWrite, usbAdbWrite, refuses]

/-- A packet is refused as a whole exactly if the first calls refuse. -/
theorem remoteWrite_nil_iff (k : Channel) (o : ByteOrder) (p : APacket) (cs : List Call) :
    (remoteWrite k o p cs).bytes = [] ↔ refuses k cs = true := by
  have himg := image_ne_nil .little p.msg
  cases k with
  | tcp =>
      rw [remoteWrite, image_fixEndians]
      exact writex_nil_iff cs (List.append_ne_nil_of_left_ne_nil himg _)
  | usb h =>
      rw [← usbWrite_nil_iff h cs himg, remoteWrite, remoteWriteUsb, image_fixEndians]
      by_cases hok : (usbWrite h cs (p.msg.image .little)).ok = false
      · rw [if_pos hok]
      · have hbytes := (usbWrite_writes h cs himg).ok_iff.mp (Bool.eq_true_of_not_eq_false hok)
        rw [if_neg hok]
        split
        · rfl
        · simp [hbytes, himg]

/-! ### The stream -/

section Stream

variable (k : Channel) (o : ByteOrder) (l : Life) (ds : List Delivery)

/-- At every moment of the run the accepted bytes are a prefix of the bytes of the packets
handed to `write_to_remote`, and after a packet that was written only in part nothing else
is written. -/
def InStep : Prop :=
  ∀ ds₁ d ds₂, ds = ds₁ ++ d :: ds₂ →
    let s := (Sender.start l).run k o ds₁
    let s' := s.deliver k o d
    s'.accepted <+: s'.intended ∧ (s.accepted ≠ s.intended → s'.accepted = s.accepted)

/-- Whenever the connection has not taken all that was handed to it before, it refuses the
next packet from its first byte on. -/
def StaysShut : Prop :=
  ∀ ds₁ d ds₂, ds = ds₁ ++ d :: ds₂ →
    let s := (Sender.start l).run k o ds₁
    s.accepted ≠ s.intended → s.Passes d.packet → refuses k d.calls = true

variable {k o l ds}

/-- One turn of the loop on a packet that is not handed over. -/
theorem Sender.deliver_of_not_passes {s : Sender} {d : Delivery} (h : ¬ s.Passes d.packet) :
    (s.deliver k o d).accepted = s.accepted ∧ (s.deliver k o d).intended = s.intended := by
  rw [Sender.deliver, if_neg h]
  split
  · exact ⟨rfl, rfl⟩
  · exact ⟨rfl, rfl⟩

/-- One turn of the loop on a packet that is handed over. -/
theorem Sender.deliver_of_passes {s : Sender} {d : Delivery} (h : s.Passes d.packet) :
    (s.deliver k o d).accepted = s.accepted ++ (remoteWrite k o d.packet d.calls).bytes ∧
      (s.deliver k o d).intended = s.intended ++ d.packet.wire := by
  rw [Sender.deliver, if_pos h.1, if_pos h]
  refine ⟨rfl, ?_⟩
  simp [Sender.intended]

/-- One turn of the loop keeps the accepted bytes a prefix, if the connection stays shut. -/
theorem Sender.deliver_prefix {s : Sender} {d : Delivery} (hs : s.accepted <+: s.intended)
    (hd : s.accepted ≠ s.intended → s.Passes d.packet → refuses k d.calls = true) :
    (s.deliver k o d).accepted <+: (s.deliver k o d).intended := by
  by_cases hp : s.Passes d.packet
  · obtain ⟨hacc, hint⟩ := Sender.deliver_of_passes (k := k) (o := o) hp
    rw [hacc, hint]
    by_cases heq : s.accepted = s.intended
    · rw [heq]
      exact (List.prefix_append_right_inj _).mpr
        (remoteWrite_writes k o d.fits d.calls).accepted
    · rw [(remoteWrite_nil_iff k o d.packet d.calls).mpr (hd heq hp), List.append_nil]
      exact hs.trans (List.prefix_append ..)
  · obtain ⟨hacc, hint⟩ := Sender.deliver_of_not_passes (k := k) (o := o) hp
    rw [hacc, hint]
    exact hs

/-- Along a run on a connection that stays shut, the accepted bytes are a prefix. -/
theorem StaysShut.prefix (h : StaysShut k o l ds) :
    ∀ ds₁ ds₂, ds = ds₁ ++ ds₂ →
      ((Sender.start l).run k o ds₁).accepted <+: ((Sender.start l).run k o ds₁).intended := by
  intro ds₁
  induction ds₁ using List.reverseRecOn with
  | nil => exact fun _ _ => List.prefix_rfl
  | append_singleton ds₁ d ih =>
      intro ds₂ hds
      rw [List.append_assoc] at hds
      rw [Sender.run_concat]
      exact Sender.deliver_prefix (ih _ hds) (h ds₁ d ds₂ hds)

/-- **The outgoing stream** stays in step with the packets exactly if the connection, once
it has refused a part of a packet, refuses every later packet as a whole. -/
theorem outgoing_in_step_iff (k : Channel) (o : ByteOrder) (l : Life) (ds : List Delivery) :
    InStep k o l ds ↔ StaysShut k o l ds := by
  constructor
  · intro h ds₁ d ds₂ hds s hne hp
    have hstop := (h ds₁ d ds₂ hds).2 hne
    rw [(Sender.deliver_of_passes hp).1] at hstop
    exact (remoteWrite_nil_iff k o d.packet d.calls).mp (List.append_right_eq_self.mp hstop)
  · intro h ds₁ d ds₂ hds
    have hpre := h.prefix ds₁ (d :: ds₂) hds
    refine ⟨Sender.deliver_prefix hpre (h ds₁ d ds₂ hds), fun hne => ?_⟩
    by_cases hp : ((Sender.start l).run k o ds₁).Passes d.packet
    · rw [(Sender.deliver_of_passes hp).1,
        (remoteWrite_nil_iff k o d.packet d.calls).mpr (h ds₁ d ds₂ hds hne hp),
          List.append_nil]
    · exact (Sender.deliver_of_not_passes hp).1

end Stream

/-- The input thread of a transport that came online. -/
def onlineLife : Life := { type := .tcp, started := true, active := true }

/-- An `OKAY` packet and how its write ends. -/
def okayDelivery (arg0 : UInt32) (cs : List Call) : Delivery where
  packet := APacket.finish { addr := 0, msg := { command := A_OKAY, arg0 := arg0, arg1 := 2 } }
  calls := cs
  fits := ⟨Nat.zero_le _, Nat.zero_le _⟩

/-- A TCP connection takes five bytes of a packet, fails, and takes the next packet. -/
theorem outgoing_out_of_step :
    ¬ InStep .tcp .little onlineLife [okayDelivery 1 [.upTo 5, .error],
      okayDelivery 2 []] := by
  intro h
  have hpre := (h [okayDelivery 1 [.upTo 5, .error]] (okayDelivery 2 []) [] rfl).1
  revert hpre
  decide +kernel

end Adbd
