import Adbd.Closing

/-!
# What Each Handler May Do

The daemon runs one handler at a time: a callback of the main loop, or a section of an I/O
thread. Which of the operations of `Adbd.Ops` a handler may perform, on which sockets and
for which input, is said here once, by `Task.May`; that the handlers keep to it is proved
in `Adbd.Handlers` and `Adbd.Packets`. Every invariant of the daemon is then a matter of
single operations.

The condition may speak about the memory `c₀` the handler started from, which is what a
condition on the state before a step can see, and about the memory the operation is
performed on. What a handler does once, as the first thing it notes, is marked by a log
that is still the one it started from.

## Main definitions

* `Task`: the handlers.
* `Core.find`: the socket `find_local_socket` returns.
* `Task.May k c₀ w o`: the handler `k`, started from `c₀`, may perform `o` on `w`.

## Main results

* `Does.imp`: the operations of a handler, seen through a weaker condition.
* `Task.May.congr`: which of the memory `c₀` the condition depends on.
-/

namespace Adbd

open Program

/-- The handlers. A `packet` is one that `transport_socket_events` read from the pipe of
its transport; `closeAll` is the end of an input thread, `unref` the last reference to a
TCP transport being dropped, `post` and `pop` the pipes' other ends; what is posted is part
of the task. -/
inductive Task
  | idle
  | select
  | write (s : SockId)
  | read (s : SockId)
  | packet (t : TId) (p : APacket)
  | accept
  | jdwp
  | register (t : TId)
  | remove (t : TId)
  | closeAll (t : TId)
  | unref (t : TId)
  | post (t : TId) (m : AMessage) (data : List UInt8)
  | pop (t : TId)
deriving DecidableEq, Repr

/-- The socket `find_local_socket` returns: the first of the list with the given id. -/
def Core.find (c : Core) (id : UInt32) : Option SockId :=
  c.localSocketList.find? fun s => (c.sockets s).any (·.id = id)

/-- The service request collected by a smart socket, as its length and its buffer: what it
has and what comes behind it, unless that is too long. -/
def collected (q : List APacket) (got : List UInt8) : Option (Nat × List UInt8) :=
  match q with
  | [] => some (got.length, got)
  | p :: _ =>
      if p.len + got.length > MAX_PAYLOAD then none
      else some (p.len + got.length, p.data.take p.len ++ got)

/-- A service request is complete: four digits, and as many bytes as they say. -/
def Requested (r : Nat × List UInt8) : Prop :=
  4 ≤ r.1 ∧ 1 ≤ (unhex (r.2.take 4)).toNat ∧ (unhex (r.2.take 4)).toNat ≤ 1024 ∧
    (unhex (r.2.take 4)).toNat + 4 ≤ r.1

instance (r : Nat × List UInt8) : Decidable (Requested r) := by
  unfold Requested; infer_instance

/-- The bytes the `FDE_READ` branch of `local_socket_event_func` reads. -/
def Core.gets (c : Core) : List UInt8 := (readLoop c.io.reads MAX_PAYLOAD []).1

/-- Whether its reads end with an end of file or an error. -/
def Core.meetsEof (c : Core) : Bool := (readLoop c.io.reads MAX_PAYLOAD []).2.1

/-- A packet of the remote on `t`, with the message `m`, is matched to `s`. -/
def Task.Gets (k : Task) (c₀ : Core) (t : TId) (s : SockId) (m : AMessage) : Prop :=
  ∃ p, k = .packet t p ∧ p.msg = m ∧ c₀.find m.arg1 = some s

/-- A `WRTE` packet as `local_socket_enqueue` gets it, with all of its payload to be
written. -/
def APacket.payload (p : APacket) :
    APacket := { p with len := p.msg.dataLength.toNat, ptr := 0 }

/-- The payload of a `WRTE` packet is handed to the socket `s` with the record `a`. -/
def Task.Takes (k : Task) (c₀ : Core) (t : TId) (s : SockId) (a : ASocket)
    (p : APacket) : Prop :=
  k.Gets c₀ t s p.msg ∧ p.msg.command = A_WRTE ∧ c₀.sockets s = some a ∧
    ∃ p₀, k = .packet t p₀ ∧ p = p₀.payload

/-- A JDWP socket may write: it was opened, or acknowledged, or there is news for the
trackers. -/
def Task.Serves (k : Task) (c₀ : Core) (s : SockId) : Prop :=
  k = .jdwp ∨ ∃ t p, k = .packet t p ∧
    (p.msg.command = A_OPEN ∨ p.msg.command = A_OKAY ∧ c₀.find p.msg.arg1 = some s)

/-- Which streams a handler may close. -/
def Task.Closes (k : Task) (c₀ : Core) (w : Work) (d : Close) : Prop :=
  match d.how with
  | .call =>
      (∃ t m, k.Gets c₀ t d.sock m ∧ m.command = A_CLSE) ∨
        ((∃ l, w.core.log = l ++ c₀.log ∧ .writeFailed d.sock ∈ l) ∧
          (k = .write d.sock ∨ ∃ t m, k.Gets c₀ t d.sock m ∧ m.command = A_WRTE))
  | .eof => k = .read d.sock ∧ (c₀.meetsEof = true ∨ d.self.peer ≠ none)
  | .locked =>
      d.sock ∈ w.core.localSocketList ∧ ∃ t, (k = .closeAll t ∨ k = .remove t) ∧
        (d.self.transport = some t ∨ ∃ o b, d.far = some (o, b) ∧ b.transport = some t)
  | .fromPeer =>
      d.far ≠ none ∧ ((k = .read d.sock ∧ d.self.kind = .localSocket) ∨
        (d.self.kind.isJdwp = true ∧ ∃ t p, k = .packet t p ∧
          (p.msg.command = A_OKAY ∨ p.msg.command = A_WRTE) ∧
            c₀.find p.msg.arg1 = some d.sock))
  | .disconnect =>
      ∃ t o b, d.far = some (o, b) ∧ b.transport = some t ∧
        (k = .remove t ∨ ∃ p, k = .packet t p ∧
          (p.msg.command = A_CNXN ∨ p.msg.command = A_SYNC ∧ p.msg.arg0 = 0))

/-- **What a handler may do.** -/
def Task.May (k : Task) (c₀ : Core) (w : Work) : Op → Prop
  | .io _ | .pids _ | .note _ | .newPkt | .freePkt _ | .take _ | .force _ | .pendRead _ => True
  | .select _ => k = .select
  | .deliver t s m => k.Gets c₀ t s m
  | .lose x =>
      ∃ t s a p, k.Takes c₀ t s a p ∧ x = p.addr ∧ a.kind.isLocal = true ∧ a.queue = [] ∧
        (writeLoop c₀.io.writes p.bytes).verdict = .failed
  | .send t T p =>
      ∃ p₀, k = .packet t p₀ ∧ (p₀.msg.command = A_SYNC → p = p₀.finish ∧
        (p₀.msg.arg0 = 0 →
          T.connectionState = .offline ∧ T.online = false ∧ T.disconnects = [])) ∧
        (p₀.msg.command ≠ A_SYNC → p.msg.command ≠ A_SYNC)
  | .sendList s _ _ p => k.Serves c₀ s ∧ p.msg.command = A_WRTE
  | .flags s _ _ _ => k.Serves c₀ s
  | .accept _ => k = .accept
  | .collectFirst ss _ _ | .collectMore ss _ _ | .choose ss _ _ =>
      ∃ s a, k = .read s ∧ c₀.sockets s = some a ∧ a.peer = some ss
  | .rig s a ss _ _ T p =>
      k = .read s ∧ c₀.sockets s = some a ∧ T.connectionState ≠ .offline ∧
        (∀ x, (p x).msg.command = A_OPEN) ∧
        ∃ b₀ r, c₀.sockets ss = some b₀ ∧ collected b₀.queue c₀.gets = some r ∧ Requested r
  | .readOff s => k = .read s
  | .openStream d => ∃ p, k = .packet d.t p ∧ p.msg.command = A_OPEN
  | .attach s _ id t _ m =>
      k.Gets c₀ t s m ∧ m.command = A_OKAY ∧ id = m.arg0 ∧ w.core.log = c₀.log
  | .ready s t m => k.Gets c₀ t s m ∧ m.command = A_OKAY ∧ w.core.log = c₀.log
  | .wrteQueue t s a m p => k.Takes c₀ t s a p ∧ m = p.msg ∧ w.core.log = c₀.log
  | .wrteBlock t s a m p _ =>
      k.Takes c₀ t s a p ∧ m = p.msg ∧ w.core.log = c₀.log ∧
        (writeLoop c₀.io.writes p.bytes).verdict = .wouldBlock
  | .wrteFail t s m p _ =>
      ∃ a, k.Takes c₀ t s a p ∧ m = p.msg ∧ a.kind.isLocal = true ∧ a.queue = [] ∧
        (writeLoop c₀.io.writes p.bytes).verdict = .failed
  | .wrteDone t s a _ m p => k.Takes c₀ t s a p ∧ m = p.msg ∧ w.core.log = c₀.log
  | .drain s _ _ | .drainDestroy s _ _ _ => k = .write s
  | .drainReady s a _ _ => k = .write s ∧ a.queue ≠ []
  | .readWrte s a _ _ _ =>
      k = .read s ∧ c₀.sockets s = some a ∧ c₀.gets ≠ [] ∧
        (w.core.loop.fdes (.sock s)).interest = (c₀.loop.fdes (.sock s)).interest ∧
        w.core.log = c₀.log
  | .close d => k.Closes c₀ w d
  | .conn t _ _ _ _ =>
      ∃ p, k = .packet t p ∧
        (p.msg.command = A_CNXN ∨ p.msg.command = A_SYNC ∧ p.msg.arg0 = 0)
  | .popMain t _ p _ => k = .packet t p
  | .popIo t _ _ _ => k = .pop t
  | .post t _ p => k = .post t p.msg p.data
  | .closePipes t _ => k = .unref t
  | .register t _ => k = .register t
  | .unlink t l => k = .remove t ∧ l = c₀.io.reused
  | .unregister t _ => k = .remove t

/-! ### Weakening -/

section Imp

variable {α : Type} {P P' : Work → Op → Prop} {w w' : Work}

/-- The operations of a sequence, seen through a weaker condition. -/
theorem Ops.imp (h : Ops P w w') (hP : ∀ x o, P x o → P' x o) : Ops P' w w' :=
  Trans.Runs.mono h fun _ _ ha => ⟨ha.1, hP _ _ ha.2⟩

/-- The operations of a handler, seen through a weaker condition. -/
theorem Does.imp {m : M α} {Q : α → Work → Prop} (h : Does P w m Q)
    (hP : ∀ x o, P x o → P' x o) : Does P' w m Q :=
  fun hw => wp_mono (h hw) (fun _ _ ⟨H, ho, hq⟩ => ⟨H, ho.imp hP, hq⟩)
    fun _ ⟨w', ho, he⟩ => ⟨w', ho.imp hP, he⟩

end Imp

/-- What a handler may do depends on the sockets, the answers of the operating system, the
log and the interest masks it starts from. -/
theorem Task.May.congr {k : Task} {c₀ c₁ : Core} {w : Work} {o : Op} (h : k.May c₀ w o)
    (hs : c₁.sockets = c₀.sockets) (hl : c₁.localSocketList = c₀.localSocketList)
    (hio : c₁.io = c₀.io) (hlog : c₁.log = c₀.log)
    (hi : ∀ s, (c₁.loop.fdes (.sock s)).interest = (c₀.loop.fdes (.sock s)).interest) :
    k.May c₁ w o := by
  have hfind : c₁.find = c₀.find := by
    funext id
    simp only [Core.find, hl, hs]
  cases o with
    dsimp only [May, Closes, Serves, Takes, Gets, Core.gets, Core.meetsEof] at h ⊢
  | readWrte s a t T p => rw [hs, hio, hi, hlog]; exact h
  | _ =>
      first
        | exact h
        | simp only [hs, hio, hfind, hlog]
          exact h

end Adbd
