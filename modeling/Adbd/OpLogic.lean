import Adbd.PacketOwnership
import Adbd.Watch

/-!
# Handlers as Sequences of Operations

A logic for proving that a handler, run on consistent data, performs a sequence of the
operations of `Adbd.Ops` and stops only with faults that are excused. `Does P w m Q` is
the judgement; its rules follow the structure of the handler. The data are consistent
(`WF`) at the start of every judgement and, since every operation keeps them so, at the
end; the rules pass this on.

## Main definitions

* `WF`: the socket graph, the books of the packets and the event loop are consistent.
* `Excused w f`: the faults a handler may stop with.
* `Does P w m Q`: `m` performs operations that satisfy `P` and ends with `Q`.

## Main results

* `WF.op`, `WF.ops`: the operations keep the data consistent.
* `Does.bind`, `Does.pure`, `Does.after`: the rules.
* `wp_getSock`, `wp_sendPacket`, ...: the computation rules of the memory primitives.
-/

namespace Adbd

open Program Custody

/-- **Consistent data.** -/
structure WF (w : Work) : Prop where
  graph : Graph w.core
  pkts : w.ledger.WF
  watch : Watch w.core

theorem WF.op {w : Work} {o : Op} (h : WF w) (hg : o.Guard w) : WF (o.apply w) :=
  ⟨h.graph.op hg, o.keeps h.graph hg h.pkts, h.watch.op h.graph hg⟩

theorem WF.ops {P : Work → Op → Prop} {w w' : Work} (h : WF w) (ho : Ops P w w') : WF w' :=
  ho.invariant h fun _ _ hx hg _ => hx.op hg

/-- A transport something can be sent on: it is connected, or has streams. -/
def ATransport.InUse (T : ATransport) : Prop :=
  T.disconnects ≠ [] ∨ T.connectionState ≠ .offline

/-- The faults a handler on consistent data may stop with. A freed socket is followed only
from the list of trackers, a null peer only when a local socket that waits for its `OKAY`
has written out a queue, and something is sent into a pipe that its own transport has closed
only while that transport is in use. -/
def Excused (w : Work) : Fault → Prop
  | .nullPeer s =>
      ∃ a, w.core.sockets s = some a ∧ a.kind = .localNotify ∧ a.closing = false ∧ a.queue ≠ []
  | .useAfterFree s => s ∈ w.core.jdwpTrackersList ∧ w.core.sockets s = none
  | .closedPipe t =>
      ∃ T, w.core.transports t = some T ∧ w.core.canWrite t T = false ∧
        (T.pipesOpen = false → T.InUse)
  | .doubleFree _ | .tooDeep => False
  | .staleTransport _ | .nullKeyList | .fatal | .exit => True

/-- A closed pipe was closed before, if nothing was done to the pipes since. -/
theorem Core.canWrite_eq_false {c c' : Core} {t : TId} {T T' : ATransport}
    (h : c'.canWrite t T' = false) (hcut : c'.cut = c.cut)
    (hpipe : T'.pipesOpen = T.pipesOpen) :
    c.canWrite t T = false := by
  simpa only [Core.canWrite, hcut, hpipe] using h

/-! ### Computation rules of the memory primitives -/

section Rules

variable {c : Core} {E : Fault → Prop} {s : SockId}

@[simp] theorem wp_getSock {Q : ASocket → Core → Prop} :
    wp (getSock s) Q E c ↔
      (∀ a, c.sockets s = some a → Q a c) ∧ (c.sockets s = none → E (.useAfterFree s)) := by
  simp only [getSock, wp_bind, wp_get]
  cases c.sockets s <;> simp

@[simp] theorem wp_modSock {Q : Unit → Core → Prop} {f : ASocket → ASocket} :
    wp (modSock s f) Q E c ↔
      (∀ a, c.sockets s = some a → Q () (c.putSock s (some (f a)))) ∧
        (c.sockets s = none → E (.useAfterFree s)) := by
  simp only [modSock, wp_bind, wp_getSock, wp_modify]

@[simp] theorem wp_freeSock {Q : Unit → Core → Prop} :
    wp (freeSock s) Q E c ↔
      (∀ a, c.sockets s = some a → Q () (c.putSock s none)) ∧
        (c.sockets s = none → E (.useAfterFree s)) := by
  simp only [freeSock, wp_bind, wp_getSock, wp_modify]

/-- Following the pointer to a live socket. -/
theorem wp_getSock_of {Q : ASocket → Core → Prop} {a : ASocket} (hs : c.sockets s = some a) :
    wp (getSock s) Q E c ↔ Q a c := by
  simp [hs]

/-- Writing to a live socket. -/
theorem wp_modSock_of {Q : Unit → Core → Prop} {f : ASocket → ASocket} {a : ASocket}
    (hs : c.sockets s = some a) :
    wp (modSock s f) Q E c ↔ Q () (c.putSock s (some (f a))) := by
  simp [hs]

/-- Freeing a live socket. -/
theorem wp_freeSock_of {Q : Unit → Core → Prop} {a : ASocket} (hs : c.sockets s = some a) :
    wp (freeSock s) Q E c ↔ Q () (c.putSock s none) := by
  simp [hs]

@[simp] theorem wp_allocSock {Q : SockId → Core → Prop} {a : ASocket} :
    wp (allocSock a) Q E c ↔
      Q c.nextSock { c.putSock c.nextSock (some a) with nextSock := c.nextSock + 1 } := by
  simp only [allocSock, wp_bind, wp_get, wp_set, wp_pure]

@[simp] theorem wp_getTransport {Q : ATransport → Core → Prop} {t : TId} :
    wp (getTransport t) Q E c ↔
      (∀ T, c.transports t = some T → Q T c) ∧
      (c.transports t = none → E (.staleTransport t)) := by
  simp only [getTransport, wp_bind, wp_get]
  cases c.transports t <;> simp

@[simp] theorem wp_modTransport {Q : Unit → Core → Prop} {t : TId}
    {f : ATransport → ATransport} :
    wp (modTransport t f) Q E c ↔
      (∀ T, c.transports t = some T → Q () (c.putTransport t (some (f T)))) ∧
        (c.transports t = none → E (.staleTransport t)) := by
  simp only [modTransport, wp_bind, wp_getTransport, wp_modify]

/-- Following the pointer to a live transport. -/
theorem wp_getTransport_of {Q : ATransport → Core → Prop} {t : TId} {T : ATransport}
    (hT : c.transports t = some T) : wp (getTransport t) Q E c ↔ Q T c := by
  simp [hT]

/-- Writing to a live transport. -/
theorem wp_modTransport_of {Q : Unit → Core → Prop} {t : TId} {T : ATransport}
    {f : ATransport → ATransport} (hT : c.transports t = some T) :
    wp (modTransport t f) Q E c ↔ Q () (c.putTransport t (some (f T))) := by
  simp [hT]

@[simp] theorem wp_note {Q : Unit → Core → Prop} {o : Obs} :
    wp (note o) Q E c ↔ Q () (c.note o) := Iff.rfl

@[simp] theorem wp_modLoop {Q : Unit → Core → Prop} {f : Loop FdeId → Loop FdeId} :
    wp (modLoop f) Q E c ↔ Q () (c.onLoop f) := Iff.rfl

@[simp] theorem wp_getApacket {Q : APacket → Core → Prop} :
    wp getApacket Q E c ↔ Q { addr := c.nextPkt } c.newPkt := by
  simp only [getApacket, wp_bind, wp_get, wp_set, wp_pure, Core.newPkt]

/-- Marking one address as freed. -/
theorem freePkts_singleton (c : Core) (x : Nat) :
    c.freePkts [x] = { c with livePkts := Function.update c.livePkts x false } := by
  simp only [Core.freePkts, List.mem_singleton]
  congr 1
  funext y
  simp [Function.update_apply]

theorem wp_putApacket {Q : Unit → Core → Prop} {p : APacket} (hl : c.livePkts p.addr = true) :
    wp (putApacket p) Q E c ↔ Q () (c.freePkts [p.addr]) := by
  simp only [putApacket, wp_bind, wp_get, hl, if_true, wp_set, freePkts_singleton]

/-- Freeing packets one after the other. -/
theorem freePkts_freePkts (c : Core) (l l' : List Nat) :
    (c.freePkts l).freePkts l' = c.freePkts (l ++ l') := by
  simp only [Core.freePkts, List.mem_append]
  congr 1
  funext y
  by_cases h : y ∈ l <;> by_cases h' : y ∈ l' <;> simp [h, h']

@[simp] theorem freePkts_nil (c : Core) : c.freePkts [] = c := by simp [Core.freePkts]

theorem wp_putApackets {Q : Unit → Core → Prop} {l : List APacket}
    (hn : (addrs l).Nodup) (hl : ∀ x ∈ addrs l, c.livePkts x = true) :
    wp (putApackets l) Q E c ↔ Q () (c.freePkts (addrs l)) := by
  induction l generalizing c with
  | nil => simp [putApackets]
  | cons p l ih =>
      simp only [addrs_cons, List.nodup_cons] at hn
      have hl' : ∀ x ∈ addrs l, (c.freePkts [p.addr]).livePkts x = true := by
        intro x hx
        have hne : x ≠ p.addr := by rintro rfl; exact hn.1 hx
        simpa [Core.freePkts, hne] using hl x (by simp [hx])
      rw [putApackets, wp_bind, wp_putApacket (hl _ (by simp)), ih hn.2 hl', freePkts_freePkts]
      rfl

/-- Access to live sockets only. -/
theorem wp_touch {Q : Unit → Core → Prop} {l : List SockId}
    (hl : ∀ s ∈ l, c.sockets s = none → E (.useAfterFree s)) (hQ : Q () c) :
    wp (touch l) Q E c := by
  induction l with
  | nil => exact hQ
  | cons s l ih =>
      rw [touch, wp_bind, wp_getSock]
      exact ⟨fun _ _ => ih fun x hx => hl x (by simp [hx]), hl s (by simp)⟩

theorem mem_of_mem_adjacent {l : List SockId} {x : SockId} (h : x ∈ adjacent s l) : x ∈ l := by
  induction l using adjacent.induct s with
  | case1 y l => simp_all [adjacent]
  | case2 x' l hx =>
      simp only [adjacent, hx, if_false, if_true, List.mem_cons] at h
      rcases h with rfl | h
      · simp
      · cases l with
        | nil => simp at h
        | cons z l => simp_all
  | case3 x' y l hx hy ih =>
      simp only [adjacent, hx, hy, if_false] at h
      exact List.mem_cons_of_mem _ (ih h)
  | case4 l hl => simp_all [adjacent]

@[simp] theorem wp_sendPacket {Q : Unit → Core → Prop} {p : APacket} {t : TId}
    {r : Option SockId} :
    wp (sendPacket p (some t) r) Q E c ↔
      (∀ T, c.transports t = some T →
        if c.canWrite t T then Q () ((c.push t T p.finish).note (.sent t r p.finish.msg))
        else E (.closedPipe t)) ∧
      (c.transports t = none → E (.staleTransport t)) := by
  simp only [sendPacket, wp_bind, wp_getTransport, wp_get]
  cases hT : c.transports t with
  | none => simp
  | some T =>
      simp only [Option.some.injEq, forall_eq', reduceCtorEq, IsEmpty.forall_iff, and_true]
      split
      · simp [hT, Core.push, APacket.finish]
      · simp

end Rules

/-! ### The judgement -/

variable {α β : Type} {P : Work → Op → Prop} {w : Work}

/-- **On consistent data the handler `m` performs operations that satisfy `P`**, ends with
`Q`, and stops only with excused faults. -/
def Does (P : Work → Op → Prop) (w : Work) (m : M α) (Q : α → Work → Prop) : Prop :=
  WF w → wp m (fun r c => ∃ H, Ops P w ⟨c, H⟩ ∧ Q r ⟨c, H⟩)
    (fun f => ∃ w', Ops P w w' ∧ Excused w' f) w.core

namespace Does

variable {Q : α → Work → Prop} {R : β → Work → Prop}

theorem pure {r : α} (h : Q r w) : Does P w (Pure.pure r) Q :=
  fun _ => ⟨w.hand, Ops.refl, h⟩

theorem mono {m : M α} {Q' : α → Work → Prop} (h : Does P w m Q)
    (hQ : ∀ r w', WF w' → Q r w' → Q' r w') : Does P w m Q' :=
  fun hw => wp_mono (h hw) (fun r _ ⟨H, ho, hq⟩ => ⟨H, ho, hQ r _ (hw.ops ho) hq⟩) fun _ => id

/-- Sequencing. -/
theorem bind {m : M α} {f : α → M β} (h : Does P w m Q)
    (hf : ∀ r w', Q r w' → Does P w' (f r) R) : Does P w (m >>= f) R := by
  intro hw
  rw [wp_bind]
  refine wp_mono (h hw) (fun r c ⟨H, ho, hq⟩ => ?_) fun _ => id
  refine wp_mono (hf r _ hq (hw.ops ho)) (fun r' c' ⟨H', ho', hr⟩ => ?_)
    fun f ⟨w', ho', he⟩ => ?_
  · exact ⟨H', ho.trans ho', hr⟩
  · exact ⟨w', ho.trans ho', he⟩

/-- After some operations the rest of the handler does what it does from there. -/
theorem afterOps {m : M α} {w' : Work} (ho : Ops P w w') (hw : WF w) (h : Does P w' m Q) :
    wp m (fun r c => ∃ H, Ops P w ⟨c, H⟩ ∧ Q r ⟨c, H⟩)
      (fun f => ∃ w', Ops P w w' ∧ Excused w' f) w'.core :=
  wp_mono (h (hw.ops ho)) (fun _ _ ⟨H, ho', hq⟩ => ⟨H, ho.trans ho', hq⟩)
    fun _ ⟨w', ho', he⟩ => ⟨w', ho.trans ho', he⟩

/-- After the operation `o` the rest of the handler does what it does from there. -/
theorem after {m : M α} (o : Op) (hw : WF w) (hg : o.Guard w) (hP : P w o)
    (h : Does P (o.apply w) m Q) :
    wp m (fun r c => ∃ H, Ops P w ⟨c, H⟩ ∧ Q r ⟨c, H⟩)
      (fun f => ∃ w', Ops P w w' ∧ Excused w' f) (o.effect w.core) :=
  afterOps (Ops.one o hg hP) hw h

/-- The handler has performed one operation and is done. -/
theorem one {r : α} {c : Core} (o : Op) (hg : o.Guard w) (hP : P w o)
    (hc : c = o.effect w.core) (hQ : Q r (o.apply w)) : ∃ H, Ops P w ⟨c, H⟩ ∧ Q r ⟨c, H⟩ := by
  subst hc
  exact ⟨o.handle w, Ops.one o hg hP, hQ⟩

/-- A fault that is excused where the handler starts. -/
theorem excused {f : Fault} (h : Excused w f) : ∃ w', Ops P w w' ∧ Excused w' f :=
  ⟨w, Ops.refl, h⟩

/-- A handler that starts by following a socket pointer. -/
theorem getSock {a : ASocket} {s : SockId} {f : ASocket → M β} (hs : w.core.sockets s = some a)
    (h : Does P w (f a) R) : Does P w (Adbd.getSock s >>= f) R := by
  intro hw
  rw [wp_bind, wp_getSock]
  refine ⟨fun a' ha' => ?_, fun hn => by simp [hs] at hn⟩
  obtain rfl : a = a' := Option.some.inj (hs.symm.trans ha')
  exact h hw

/-- A handler that starts by reading the memory. -/
theorem get {f : Core → M β} (h : Does P w (f w.core) R) : Does P w (MonadState.get >>= f) R :=
  fun hw => h hw

/-- A handler that starts by following a transport pointer. -/
theorem getTransport {t : TId} {f : ATransport → M β}
    (h : ∀ T, w.core.transports t = some T → Does P w (f T) R) :
    Does P w (Adbd.getTransport t >>= f) R := by
  intro hw
  rw [wp_bind, wp_getTransport]
  exact ⟨fun T hT => h T hT hw, fun _ => excused trivial⟩

end Does

end Adbd
