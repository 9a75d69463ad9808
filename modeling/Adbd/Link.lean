import Mathlib.Data.List.TakeWhile
import Adbd.System

/-!
# The Protocol of a Transport

A transport as three parties and two pipes: the output thread posts what the remote sends
into the pipe to the main loop, the main loop handles it and sends packets into the pipe to
the input thread, and the input thread hands these to the remote. The `SYNC` packets that
open and close the link go the same way. What the main loop does otherwise is left open:
between two packets it may send what it likes, as long as the transport is in use.

`Adbd.Phases` shows that every step of the daemon is such a move of every transport.

## Main definitions

* `Link`: where the three parties stand, and what is in the pipes.
* `Link.Step`: the moves, each with what is sent, received or read by it.
* `Link.gated`: the packets that are to reach the remote.

## Main results

* `Link.Gate.step`: the opening `SYNC` is the first packet that is sent, and the input
  thread hands on what is `gated`.
* `Link.Phase.step`: if no `SYNC(0)` comes from the remote, the input thread leaves only when
  nothing is and nothing will be in the pipes.
-/

namespace Adbd

/-- A `SYNC` that tells a thread to stop. -/
def Sync0 (m : AMessage) : Prop := m.command = A_SYNC ∧ m.arg0 = 0

instance (m : AMessage) : Decidable (Sync0 m) := by
  unfold Sync0; infer_instance

/-- The output thread posts nothing any more. -/
def OutPc.Past (pc : OutPc) : Prop := pc ≠ .sync ∧ pc ≠ .pump ∧ pc ≠ .offline

instance (pc : OutPc) : Decidable pc.Past := by
  unfold OutPc.Past; infer_instance

/-- A transport: its two threads, its two pipes, oldest first, and whether the main loop has
a use for it. Of a packet of the remote only the message matters here. -/
structure Link where
  out : OutPc
  inp : InPc
  token : UInt32
  active : Bool
  toRemote : List APacket
  toMain : List AMessage
  toIo : List APacket
  inUse : Bool
  pipesOpen : Bool

namespace Link

variable {L L' : Link}

/-- A transport whose threads have just been started. -/
def start : Link where
  out := .sync
  inp := .reading
  token := 1
  active := false
  toRemote := []
  toMain := []
  toIo := []
  inUse := false
  pipesOpen := true

/-- What the input thread makes of a packet. -/
def input (L : Link) (p : APacket) : Link :=
  if p.msg.command = A_SYNC then
    if p.msg.arg0 = 0 then { L with inp := .closeAll }
    else if p.msg.arg1 = L.token then { L with active := true }
    else L
  else if L.active then { L with toRemote := L.toRemote ++ [p] }
  else L

/-- What a move makes known: packets sent into the pipe to the input thread, the message of
a packet of the remote, a packet the input thread reads, a read of that pipe that fails, or
nothing. -/
inductive Event
  | sends (new : List APacket)
  | receives (m : AMessage)
  | takes (p : APacket)
  | fails
  | silent

/-- The packets an event sends. -/
def Event.sent : Event → List APacket
  | .sends new => new
  | _ => []

/-- The packets an event reads. -/
def Event.read : Event → List APacket
  | .takes p => [p]
  | _ => []

/-- What handlers that do not handle a packet of the transport may send: no `SYNC`, and
nothing at all on a transport that is not in use, which stays so. -/
structure Spare (L : Link) (new : List APacket) (inUse : Bool) : Prop where
  sync : ∀ p ∈ new, p.msg.command ≠ A_SYNC
  idle : L.inUse = false → new = [] ∧ inUse = false

/-- **The moves of a transport.** -/
inductive Step : Link → Event → Link → Prop
  /-- the main loop does something else -/
  | spare {L : Link} {new : List APacket} {b : Bool} : L.Spare new b →
      Step L (.sends new) { L with toIo := L.toIo ++ new, inUse := b }
  /-- the main loop echoes a `SYNC`, and takes the transport offline if it is `SYNC(0)` -/
  | echo {L : Link} {p : APacket} {rest : List AMessage} {b : Bool} :
      L.pipesOpen = true → L.toMain = p.msg :: rest → p.msg.command = A_SYNC →
      (p.msg.arg0 = 0 → b = false) →
      Step L (.sends [p]) { L with toMain := rest, toIo := L.toIo ++ [p], inUse := b }
  /-- the main loop handles another packet -/
  | handle {L : Link} {m : AMessage} {rest : List AMessage} {new : List APacket} {b : Bool} :
      L.pipesOpen = true → L.toMain = m :: rest → m.command ≠ A_SYNC →
      (∀ p ∈ new, p.msg.command ≠ A_SYNC) →
      Step L (.sends new) { L with toMain := rest, toIo := L.toIo ++ new, inUse := b }
  /-- the output thread posts its first `SYNC`, or fails to -/
  | sync {L : Link} : L.out = .sync →
      Step L .silent { L with out := .pump, token := L.token + 1,
                              toMain := L.toMain ++ [syncMsg 1 (L.token + 1)] }
  | syncFails {L : Link} : L.out = .sync →
      Step L .silent { L with out := .kickTest, token := L.token + 1 }
  /-- the output thread posts a packet of the remote -/
  | receive {L : Link} {m : AMessage} : L.out = .pump →
      Step L (.receives m) { L with toMain := L.toMain ++ [m] }
  /-- the remote is lost, and the output thread posts its last `SYNC` -/
  | lost {L : Link} : L.out = .pump → Step L .silent { L with out := .offline }
  | offline {L : Link} : L.out = .offline →
      Step L .silent { L with out := .kickTest, toMain := L.toMain ++ [syncMsg 0 0] }
  /-- the output thread fails to post a packet -/
  | stop {L : Link} : L.out = .pump ∨ L.out = .offline →
      Step L .silent { L with out := .kickTest }
  /-- the output thread goes on leaving; the pipes are closed when both threads are done -/
  | leaveOut {L : Link} {pc : OutPc} {b : Bool} : L.out.Past → pc.Past →
      (b = false → L.pipesOpen = false ∨ pc = .done ∧ L.inp = .done) →
      Step L .silent { L with out := pc, pipesOpen := b }
  /-- the input thread reads a packet, or fails to -/
  | take {L : Link} {p : APacket} {rest : List APacket} : L.inp = .reading →
      L.toIo = p :: rest → Step L (.takes p) { L.input p with toIo := rest }
  | fail {L : Link} : L.inp = .reading → Step L .fails { L with inp := .closeAll }
  /-- the input thread closes the sockets of the transport -/
  | closeAll {L : Link} {new : List APacket} {b : Bool} : L.inp = .closeAll → L.Spare new b →
      Step L (.sends new) { L with inp := .kickTest, toIo := L.toIo ++ new, inUse := b }
  /-- the input thread goes on leaving -/
  | leaveIn {L : Link} {pc : InPc} {b : Bool} : L.inp ≠ .reading → pc ≠ .reading →
      (b = false → L.pipesOpen = false ∨ pc = .done ∧ L.out = .done) →
      Step L .silent { L with inp := pc, pipesOpen := b }

/-! ### What reaches the remote -/

/-- The `SYNC` after which the input thread hands packets on. -/
def Opens (token : UInt32) (m : AMessage) : Prop :=
  m.command = A_SYNC ∧ m.arg0 ≠ 0 ∧ m.arg1 = token

instance (token : UInt32) (m : AMessage) : Decidable (Opens token m) := by
  unfold Opens; infer_instance

/-- The packets before the first `SYNC(0)` that are not themselves `SYNC`s. -/
def payload (ps : List APacket) : List APacket :=
  (ps.takeWhile fun p => ¬Sync0 p.msg).filter fun p => p.msg.command ≠ A_SYNC

/-- **The packets that are to reach the remote**: those that are not `SYNC`s, after the
first `SYNC` with the token and before the first `SYNC(0)`. -/
def gated (token : UInt32) (ps : List APacket) : List APacket :=
  ((ps.takeWhile fun p => ¬Sync0 p.msg).dropWhile fun p => ¬Opens token p.msg).filter
    fun p => p.msg.command ≠ A_SYNC

/-- If the first packet of all is that `SYNC`, nothing is held back. -/
theorem gated_eq_payload {token : UInt32} {ps : List APacket}
    (h : ∀ p, ps.head? = some p → Opens token p.msg) : gated token ps = payload ps := by
  cases ps with
  | nil => rfl
  | cons p ps =>
      have hp := h p rfl
      have h0 : ¬Sync0 p.msg := fun h0 => hp.2.1 h0.2
      simp [gated, payload, h0, hp]

/-- What is sent later comes behind what was sent before. -/
theorem payload_append {ps : List APacket} (new : List APacket) (h : ∀ p ∈ ps, ¬Sync0 p.msg) :
    payload (ps ++ new) = payload ps ++ payload new := by
  have hall : ps.takeWhile (fun p => ¬Sync0 p.msg) = ps :=
    List.takeWhile_eq_self_iff.mpr (by simpa using h)
  rw [payload, List.takeWhile_append_of_pos (by simpa using h), List.filter_append, payload,
    hall, payload]

/-- Nothing counts behind a `SYNC(0)`. -/
theorem payload_append_of_mem {ps new : List APacket} {p : APacket} (hp : p ∈ ps)
    (h0 : Sync0 p.msg) : payload (ps ++ new) = payload ps := by
  have hne : (ps.takeWhile fun p => ¬Sync0 p.msg).length ≠ ps.length := by
    intro heq
    have hall := List.takeWhile_eq_self_iff.mp ((List.takeWhile_prefix _).eq_of_length heq)
    exact absurd h0 (by simpa using hall p hp)
  rw [payload, List.takeWhile_append, if_neg hne, payload]

/-- The message of the first packet is not changed by what comes behind it. -/
theorem head?_append_map {ps qs : List APacket} {m : AMessage}
    (h : ps.head?.map (·.msg) = some m) : (ps ++ qs).head?.map (·.msg) = some m := by
  cases ps with
  | nil => cases h
  | cons p ps => exact h

/-- The invariant of the gate, with the packets sent and read so far. -/
structure Gate (L : Link) (sent read : List APacket) : Prop where
  /-- the pipe keeps the order, and loses nothing -/
  fifo : sent = read ++ L.toIo
  /-- the first packet sent is the opening `SYNC`; until then the transport is not in use,
  and that `SYNC` is the first to be handled -/
  opened : sent.head?.map (·.msg) = some (syncMsg 1 L.token) ∨
    sent = [] ∧ L.inUse = false ∧ (L.toMain.head? = some (syncMsg 1 L.token) ∨
      L.toMain = [] ∧ (L.out = .sync ∨ L.out.Past))
  /-- the token is fixed before anything is posted -/
  start : L.out = .sync → sent = [] ∧ L.toMain = []
  active : L.active = true ↔ read ≠ []
  remote : L.toRemote = payload read
  reading : L.inp = .reading → ∀ p ∈ read, ¬Sync0 p.msg

theorem opens_syncMsg (token : UInt32) : Opens token (syncMsg 1 token) :=
  ⟨rfl, by simp [syncMsg], rfl⟩

namespace Gate

variable {sent read new : List APacket} {b : Bool} {e : Event}

theorem init : Link.start.Gate [] [] :=
  ⟨rfl, .inr ⟨rfl, rfl, .inr ⟨rfl, .inl rfl⟩⟩, fun _ => ⟨rfl, rfl⟩, by simp [Link.start], rfl,
    by simp⟩

/-- As long as the output thread has posted nothing, nothing is in use. -/
theorem unused (h : L.Gate sent read) (hs : sent = []) : L.inUse = false := by
  rcases h.opened with hd | ⟨-, hu, -⟩
  · simp [hs] at hd
  · exact hu

/-- Handlers of other things send nothing before the opening `SYNC` was echoed. -/
theorem opened_spare (h : L.Gate sent read) (hn : L.Spare new b) :
    (sent ++ new).head?.map (·.msg) = some (syncMsg 1 L.token) ∨
      sent ++ new = [] ∧ b = false ∧ (L.toMain.head? = some (syncMsg 1 L.token) ∨
        L.toMain = [] ∧ (L.out = .sync ∨ L.out.Past)) := by
  rcases h.opened with hd | ⟨rfl, hu, hm⟩
  · exact .inl (head?_append_map hd)
  · obtain ⟨rfl, rfl⟩ := hn.idle hu
    exact .inr ⟨rfl, rfl, hm⟩

theorem start_spare (h : L.Gate sent read) (hn : L.Spare new b) (ho : L.out = .sync) :
    sent ++ new = [] ∧ L.toMain = [] := by
  obtain ⟨hs, hm⟩ := h.start ho
  obtain ⟨hnew, -⟩ := hn.idle (h.unused hs)
  exact ⟨by simp [hs, hnew], hm⟩

/-- Something is handled, so the opening `SYNC` was echoed or is what is handled. -/
theorem handled {m : AMessage} {rest : List AMessage} (h : L.Gate sent read)
    (hm : L.toMain = m :: rest) :
    L.out ≠ .sync ∧
      (sent.head?.map (·.msg) = some (syncMsg 1 L.token) ∨ sent = [] ∧
        m = syncMsg 1 L.token) := by
  refine ⟨fun ho => ?_, ?_⟩
  · have hnil := (h.start ho).2
    simp [hm] at hnil
  · rcases h.opened with hd | ⟨hs, -, hd | ⟨hnil, -⟩⟩
    · exact .inl hd
    · exact .inr ⟨hs, by simpa [hm] using hd⟩
    · simp [hm] at hnil

/-- A message is posted behind the opening `SYNC`. -/
theorem opened_post {m : AMessage} {pc : OutPc} (h : L.Gate sent read)
    (ho : L.out = .pump ∨ L.out = .offline) :
    sent.head?.map (·.msg) = some (syncMsg 1 L.token) ∨
      sent = [] ∧ L.inUse = false ∧ ((L.toMain ++ [m]).head? = some (syncMsg 1 L.token) ∨
        L.toMain ++ [m] = [] ∧ (pc = .sync ∨ pc.Past)) := by
  rcases h.opened with hd | ⟨hs, hu, hd | ⟨-, hpc⟩⟩
  · exact .inl hd
  · exact .inr ⟨hs, hu, .inl (by simp [List.head?_append, hd])⟩
  · rcases ho with ho | ho <;> simp [ho, OutPc.Past] at hpc

/-- The first packet the input thread reads is the opening `SYNC`. -/
theorem first {p : APacket} {rest : List APacket} (h : L.Gate sent read)
    (hq : L.toIo = p :: rest) (hr : read = []) : p.msg = syncMsg 1 L.token := by
  have hsent : sent = p :: rest := by rw [h.fifo, hr, hq]; rfl
  rcases h.opened with hd | ⟨hs, -⟩
  · simpa [hsent] using hd
  · simp [hsent] at hs

/-- The input thread reads a packet. -/
theorem take {p : APacket} {rest : List APacket} (h : L.Gate sent read)
    (hi : L.inp = .reading) (hq : L.toIo = p :: rest) :
    Gate { L.input p with toIo := rest } sent (read ++ [p]) := by
  have hfifo : sent = (read ++ [p]) ++ rest := by
    rw [h.fifo, hq]
    simp
  have hpay := payload_append [p] (h.reading hi)
  -- everything but the opening `SYNC` finds the thread active
  have hact : p.msg ≠ syncMsg 1 L.token → L.active = true := by
    intro hne
    exact h.active.mpr fun hr => hne (h.first hq hr)
  have hopened := h.opened
  have hstart := h.start
  rw [input]
  split
  · next hc =>
    split
    · next h0 =>
      have hon := hact fun heq => by simp [heq, syncMsg] at h0
      refine ⟨hfifo, hopened, hstart, by simp [hon], ?_, by simp⟩
      rw [hpay]
      simp [payload, Sync0, hc, h0, h.remote]
    · next h0 =>
      have hread : ∀ q ∈ read ++ [p], ¬Sync0 q.msg := by
        intro q hq'
        rcases List.mem_append.mp hq' with hq' | hq'
        · exact h.reading hi q hq'
        · rw [List.mem_singleton.mp hq']
          exact fun hz => h0 hz.2
      have hrem : L.toRemote = payload (read ++ [p]) := by
        rw [hpay]
        simp [payload, Sync0, hc, h0, h.remote]
      split
      · exact ⟨hfifo, hopened, hstart, by simp, hrem, fun _ => hread⟩
      · next htok =>
        have hon := hact fun heq => htok (by simp [heq, syncMsg])
        exact ⟨hfifo, hopened, hstart, by simp [hon], hrem, fun _ => hread⟩
  · next hc =>
    have hon := hact fun heq => hc (by simp [heq, syncMsg])
    rw [if_pos hon]
    refine ⟨hfifo, hopened, hstart, by simp [hon], ?_, fun _ q hq' => ?_⟩
    · rw [hpay]
      simp [payload, Sync0, hc, h.remote]
    · rcases List.mem_append.mp hq' with hq' | hq'
      · exact h.reading hi q hq'
      · rw [List.mem_singleton.mp hq']
        exact fun hz => hc hz.1

/-- A move of another party than the input thread, or of the input thread once it has left
its loop. -/
theorem other (new : List APacket) (h : L.Gate sent read) (hio : L'.toIo = L.toIo ++ new)
    (hrem : L'.active = L.active ∧ L'.toRemote = L.toRemote)
    (hinp : L'.inp = .reading → L.inp = .reading)
    (hopened : (sent ++ new).head?.map (·.msg) = some (syncMsg 1 L'.token) ∨
      sent ++ new = [] ∧ L'.inUse = false ∧ (L'.toMain.head? = some (syncMsg 1 L'.token) ∨
        L'.toMain = [] ∧ (L'.out = .sync ∨ L'.out.Past)))
    (hstart : L'.out = .sync → sent ++ new = [] ∧ L'.toMain = []) :
    L'.Gate (sent ++ new) (read ++ []) where
  fifo := by rw [hio, h.fifo]; simp
  opened := hopened
  start := hstart
  active := by rw [hrem.1, List.append_nil]; exact h.active
  remote := by rw [hrem.2, List.append_nil]; exact h.remote
  reading hi := by rw [List.append_nil]; exact h.reading (hinp hi)

/-- A silent move of the output thread that posts nothing. -/
theorem quiet {pc : OutPc} (h : L.Gate sent read)
    (ho : L.toMain = [] → L.out = .sync ∨ L.out.Past → pc.Past) :
    (sent ++ []).head?.map APacket.msg = some (syncMsg 1 L.token) ∨
      sent ++ [] = [] ∧ L.inUse = false ∧ (L.toMain.head? = some (syncMsg 1 L.token) ∨
        L.toMain = [] ∧ (pc = .sync ∨ pc.Past)) := by
  rw [List.append_nil]
  rcases h.opened with hd | ⟨hs, hu, hd | ⟨hm, hp⟩⟩
  · exact .inl hd
  · exact .inr ⟨hs, hu, .inl hd⟩
  · exact .inr ⟨hs, hu, .inr ⟨hm, .inr (ho hm hp)⟩⟩

/-- **Every move keeps the gate.** -/
theorem step (h : L.Gate sent read) (hs : L.Step e L') :
    L'.Gate (sent ++ e.sent) (read ++ e.read) := by
  have hkeep : L.toIo = L.toIo ++ [] := by simp
  cases hs with
  | @spare new b hn =>
      exact h.other new rfl ⟨rfl, rfl⟩ id (h.opened_spare hn) (h.start_spare hn)
  | @closeAll new b hi hn =>
      exact h.other new rfl ⟨rfl, rfl⟩ (by simp) (h.opened_spare hn) (h.start_spare hn)
  | @echo p rest b _ hm _ _ =>
      obtain ⟨hout, hd⟩ := h.handled hm
      refine h.other [p] rfl ⟨rfl, rfl⟩ id (.inl ?_) fun ho => absurd ho hout
      rcases hd with hd | ⟨rfl, hp⟩
      · exact head?_append_map hd
      · simp [hp]
  | @handle m rest new b _ hm hc _ =>
      obtain ⟨hout, hd⟩ := h.handled hm
      refine h.other new rfl ⟨rfl, rfl⟩ id (.inl ?_) fun ho => absurd ho hout
      rcases hd with hd | ⟨-, rfl⟩
      · exact head?_append_map hd
      · exact absurd rfl hc
  | sync ho =>
      obtain ⟨hs, hm⟩ := h.start ho
      refine h.other [] hkeep ⟨rfl, rfl⟩ id (.inr ⟨by simpa using hs, h.unused hs, .inl ?_⟩)
        (by simp)
      simp [hm]
  | syncFails ho =>
      obtain ⟨hs, hm⟩ := h.start ho
      exact h.other [] hkeep ⟨rfl, rfl⟩ id (.inr ⟨by simpa using hs, h.unused hs,
        .inr ⟨hm, .inr (by simp [OutPc.Past])⟩⟩) (by simp)
  | receive ho =>
      refine h.other [] hkeep ⟨rfl, rfl⟩ id ?_ (by simp [ho])
      rw [List.append_nil]
      exact h.opened_post (.inl ho)
  | offline ho =>
      refine h.other [] hkeep ⟨rfl, rfl⟩ id ?_ (by simp)
      rw [List.append_nil]
      exact h.opened_post (.inr ho)
  | lost ho =>
      exact h.other [] hkeep ⟨rfl, rfl⟩ id
        (h.quiet fun _ hp => by simp [ho, OutPc.Past] at hp) (by simp)
  | stop ho =>
      exact h.other [] hkeep ⟨rfl, rfl⟩ id (h.quiet fun _ _ => by simp [OutPc.Past])
        (by simp)
  | leaveOut _ hp _ =>
      exact h.other [] hkeep ⟨rfl, rfl⟩ id (h.quiet fun _ _ => hp) fun ho => absurd ho hp.1
  | take hi hq =>
      have ht := h.take hi hq
      rw [← List.append_nil sent] at ht
      exact ht
  | fail hi =>
      exact h.other [] hkeep ⟨rfl, rfl⟩ (by simp) (by simpa using h.opened)
        (by simpa using h.start)
  | leaveIn _ hp _ =>
      exact h.other [] hkeep ⟨rfl, rfl⟩ (fun hi => absurd hi hp) (by simpa using h.opened)
        (by simpa using h.start)

/-- What is sent is gated by `SYNC(0)` only. -/
theorem gated_sent (h : L.Gate sent read) : gated L.token sent = payload sent := by
  refine gated_eq_payload fun p hp => ?_
  rcases h.opened with hd | ⟨rfl, -⟩
  · obtain hfirst : p.msg = syncMsg 1 L.token := by simpa [hp] using hd
    exact hfirst ▸ opens_syncMsg L.token
  · cases hp

/-- So is what is read. -/
theorem gated_read (h : L.Gate sent read) : gated L.token read = payload read := by
  refine gated_eq_payload fun p hp => ?_
  have hsent : sent.head? = some p := by rw [h.fifo, List.head?_append, hp]; rfl
  rcases h.opened with hd | ⟨rfl, -⟩
  · obtain hfirst : p.msg = syncMsg 1 L.token := by simpa [hsent] using hd
    exact hfirst ▸ opens_syncMsg L.token
  · cases hsent

/-- What the remote got is the first part of what it is to get. -/
theorem remote_le (h : L.Gate sent read) : L.toRemote <+: payload sent := by
  rw [h.remote, h.fifo]
  by_cases h0 : ∃ p ∈ read, Sync0 p.msg
  · obtain ⟨p, hp, h0⟩ := h0
    exact ⟨[], by rw [List.append_nil, payload_append_of_mem hp h0]⟩
  · rw [payload_append _ fun p hp h => h0 ⟨p, hp, h⟩]
    exact List.prefix_append ..

/-- **The remote got everything** once the pipe is empty or the input thread has read a
`SYNC(0)`. -/
theorem remote_eq (h : L.Gate sent read) (hend : L.toIo = [] ∨ ∃ p ∈ read, Sync0 p.msg) :
    L.toRemote = payload sent := by
  rw [h.remote, h.fifo]
  rcases hend with hio | ⟨p, hp, h0⟩
  · rw [hio, List.append_nil]
  · rw [payload_append_of_mem hp h0]

end Gate

/-! ### When the pipes are read no more -/

/-- A move in which the remote sends no `SYNC(0)` of its own and no read of a pipe fails. -/
def Event.Calm : Event → Prop
  | .receives m => ¬Sync0 m
  | .fails => False
  | _ => True

/-- The `SYNC(0)` of the output thread on its way: not posted, posted as the last packet of
all, echoed as the last packet of all, read. -/
inductive Phase (L : Link) : Prop
  | online : L.pipesOpen = true → L.inp = .reading → (∀ p ∈ L.toIo, ¬Sync0 p.msg) →
      (∀ m ∈ L.toMain, ¬Sync0 m) → Phase L
  | posted {ms : List AMessage} {m : AMessage} : L.pipesOpen = true → L.inp = .reading →
      (∀ p ∈ L.toIo, ¬Sync0 p.msg) → L.out.Past → L.toMain = ms ++ [m] → (∀ m ∈ ms, ¬Sync0 m) →
      Sync0 m → Phase L
  | echoed {ps : List APacket} {p : APacket} : L.pipesOpen = true → L.inp = .reading →
      L.out.Past → L.toMain = [] → L.inUse = false → L.toIo = ps ++ [p] →
      (∀ p ∈ ps, ¬Sync0 p.msg) → Sync0 p.msg → Phase L
  | ended : L.inp ≠ .reading → L.out.Past → L.toMain = [] → L.inUse = false →
      L.toIo = [] → Phase L

namespace Phase

variable {e : Event} {new : List APacket} {b : Bool}

theorem init : Link.start.Phase :=
  .online rfl rfl (by simp [Link.start]) (by simp [Link.start])

/-- **A pipe that is closed is not used any more.** -/
theorem unused (h : L.Phase) (hc : L.pipesOpen = false) : L.inUse = false := by
  cases h with
  | online ho | posted ho | echoed ho => simp [ho] at hc
  | ended _ _ _ hu _ => exact hu

/-- **Whatever is in a pipe will be read.** -/
theorem readable (h : L.Phase) :
    (L.toMain ≠ [] → L.pipesOpen = true) ∧ (L.toIo ≠ [] → L.inp = .reading) := by
  cases h with
  | online ho hi | posted ho hi | echoed ho hi => exact ⟨fun _ => ho, fun _ => hi⟩
  | ended _ _ hm _ hio => exact ⟨fun h => absurd hm h, fun h => absurd hio h⟩

/-- Once the input thread has left, both pipes are empty and the transport is not in use. -/
theorem left (h : L.Phase) (hi : L.inp ≠ .reading) :
    L.out.Past ∧ L.toMain = [] ∧ L.inUse = false ∧ L.toIo = [] := by
  cases h with
  | online _ hr | posted _ hr | echoed _ hr => exact absurd hr hi
  | ended _ hp hm hu hio => exact ⟨hp, hm, hu, hio⟩

/-- The main loop sends something else. -/
theorem spare (h : L.Phase) (hn : L.Spare new b) :
    Phase { L with toIo := L.toIo ++ new, inUse := b } := by
  have hno : ∀ p ∈ new, ¬Sync0 p.msg := fun p hp h0 => hn.sync p hp h0.1
  cases h with
  | online ho hi hio hm => exact .online ho hi (List.forall_mem_append.mpr ⟨hio, hno⟩) hm
  | posted ho hi hio hp hm hms h0 =>
      exact .posted ho hi (List.forall_mem_append.mpr ⟨hio, hno⟩) hp hm hms h0
  | echoed ho hi hp hm hu hio hms h0 =>
      obtain ⟨rfl, rfl⟩ := hn.idle hu
      exact .echoed ho hi hp hm rfl (by simpa using hio) hms h0
  | ended hi hp hm hu hio =>
      obtain ⟨rfl, rfl⟩ := hn.idle hu
      exact .ended hi hp hm rfl (by simpa using hio)

/-- The main loop echoes a `SYNC`. -/
theorem echo {p : APacket} {rest : List AMessage} (h : L.Phase)
    (hm : L.toMain = p.msg :: rest) (hb : Sync0 p.msg → b = false) :
    Phase { L with toMain := rest, toIo := L.toIo ++ [p], inUse := b } := by
  cases h with
  | online ho hi hio hms =>
      have h0 : ¬Sync0 p.msg := hms p.msg (by simp [hm])
      exact .online ho hi (List.forall_mem_append.mpr ⟨hio, by simpa using h0⟩) fun m' hm' =>
        hms m' (by simp [hm, hm'])
  | @posted ms m₀ ho hi hio hp hms hno h0 =>
      cases ms with
      | nil =>
          -- the output thread's `SYNC(0)` itself: nothing is behind it
          obtain ⟨rfl, rfl⟩ : p.msg = m₀ ∧ rest = [] := by simpa [hm] using hms
          exact .echoed ho hi hp rfl (hb h0) rfl hio h0
      | cons m₁ ms =>
          obtain ⟨rfl, rfl⟩ : p.msg = m₁ ∧ rest = ms ++ [m₀] := by simpa [hm] using hms
          have h1 : ¬Sync0 p.msg := hno p.msg (by simp)
          exact .posted ho hi (List.forall_mem_append.mpr ⟨hio, by simpa using h1⟩) hp rfl
            (fun m' hm' => hno m' (by simp [hm'])) h0
  | echoed _ _ _ hnil | ended _ _ hnil => simp [hm] at hnil

/-- The main loop handles another packet. -/
theorem handle {m : AMessage} {rest : List AMessage} (h : L.Phase) (hm : L.toMain = m :: rest)
    (hc : m.command ≠ A_SYNC) (hn : ∀ p ∈ new, p.msg.command ≠ A_SYNC) :
    Phase { L with toMain := rest, toIo := L.toIo ++ new, inUse := b } := by
  have hno : ∀ p ∈ new, ¬Sync0 p.msg := fun p hp h0 => hn p hp h0.1
  cases h with
  | online ho hi hio hms =>
      exact .online ho hi (List.forall_mem_append.mpr ⟨hio, hno⟩) fun m' hm' =>
        hms m' (by simp [hm, hm'])
  | @posted ms m₀ ho hi hio hp hms hno' h0 =>
      cases ms with
      | nil =>
          obtain ⟨rfl, rfl⟩ : m = m₀ ∧ rest = [] := by simpa [hm] using hms
          exact absurd h0.1 hc
      | cons m₁ ms =>
          obtain ⟨rfl, rfl⟩ : m = m₁ ∧ rest = ms ++ [m₀] := by simpa [hm] using hms
          exact .posted ho hi (List.forall_mem_append.mpr ⟨hio, hno⟩) hp rfl
            (fun m' hm' => hno' m' (by simp [hm'])) h0
  | echoed _ _ _ hnil | ended _ _ hnil => simp [hm] at hnil

/-- The output thread, while it still posts, goes on and may post a message. -/
theorem post (pc : OutPc) (tok : UInt32) (new : List AMessage) (h : L.Phase) (ho : ¬L.out.Past)
    (hn : ∀ m ∈ new, ¬Sync0 m) :
    Phase { L with out := pc, token := tok, toMain := L.toMain ++ new } := by
  cases h with
  | online hp hi hio hm => exact .online hp hi hio (List.forall_mem_append.mpr ⟨hm, hn⟩)
  | posted _ _ _ hp | echoed _ _ hp | ended _ hp => exact absurd hp ho

/-- The input thread reads a packet. -/
theorem take {p : APacket} {rest : List APacket} (h : L.Phase) (hi : L.inp = .reading)
    (hq : L.toIo = p :: rest) : Phase { L.input p with toIo := rest } := by
  have hrest (hno : ¬Sync0 p.msg) : (L.input p).inp = .reading := by
    rw [input]
    split
    · next hc =>
      rw [if_neg fun h0 => hno ⟨hc, h0⟩]
      split <;> exact hi
    · split <;> exact hi
  have hsame : (L.input p).pipesOpen = L.pipesOpen ∧ (L.input p).out = L.out ∧
      (L.input p).toMain = L.toMain ∧ (L.input p).inUse = L.inUse := by
    rw [input]
    repeat' split
    all_goals exact ⟨rfl, rfl, rfl, rfl⟩
  obtain ⟨hopen, hout, hmain, huse⟩ := hsame
  cases h with
  | online ho _ hio hm =>
      refine .online (by rw [hopen, ho]) (hrest (hio p (by simp [hq]))) (fun q hq' => ?_)
        (by rw [hmain]; exact hm)
      exact hio q (by rw [hq]; exact List.mem_cons_of_mem _ hq')
  | posted ho _ hio hp hm hms h0 =>
      refine .posted (by rw [hopen, ho]) (hrest (hio p (by simp [hq]))) (fun q hq' => ?_)
        (by rw [hout]; exact hp) (by rw [hmain]; exact hm) hms h0
      exact hio q (by rw [hq]; exact List.mem_cons_of_mem _ hq')
  | @echoed ps p₀ ho _ hp hm hu hio hps h0 =>
      cases ps with
      | nil =>
          -- the last packet of all, and the thread leaves
          obtain ⟨rfl, rfl⟩ : p = p₀ ∧ rest = [] := by simpa [hq] using hio
          refine .ended ?_ (by rw [hout]; exact hp) (by rw [hmain]; exact hm)
            (by rw [huse]; exact hu) rfl
          simp [input, h0.1, h0.2]
      | cons p₁ ps =>
          obtain ⟨rfl, rfl⟩ : p = p₁ ∧ rest = ps ++ [p₀] := by simpa [hq] using hio
          exact .echoed (by rw [hopen, ho]) (hrest (hps p (by simp))) (by rw [hout]; exact hp)
            (by rw [hmain]; exact hm) (by rw [huse]; exact hu) rfl
            (fun q hq' => hps q (by simp [hq'])) h0
  | ended hr => exact absurd hi hr

/-- **Every calm move keeps to the phases.** -/
theorem step (h : L.Phase) (hs : L.Step e L') (he : e.Calm) : L'.Phase := by
  cases hs with
  | spare hn => exact h.spare hn
  | echo _ hm hc hb => exact h.echo hm fun h0 => hb h0.2
  | handle _ hm hc hn => exact h.handle hm hc hn
  | sync ho =>
      refine h.post _ _ _ (by simp [ho, OutPc.Past]) fun m hm => ?_
      obtain rfl := List.mem_singleton.mp hm
      simp [Sync0, syncMsg]
  | syncFails ho =>
      simpa using h.post .kickTest (L.token + 1) [] (by simp [ho, OutPc.Past]) (by simp)
  | receive ho =>
      exact h.post _ _ _ (by simp [ho, OutPc.Past]) (by simpa [Event.Calm] using he)
  | lost ho => simpa using h.post .offline L.token [] (by simp [ho, OutPc.Past]) (by simp)
  | offline ho =>
      cases h with
      | online hp hi hio hm =>
          exact .posted hp hi hio (by simp [OutPc.Past]) rfl hm ⟨rfl, rfl⟩
      | posted _ _ _ hp | echoed _ _ hp | ended _ hp => simp [ho, OutPc.Past] at hp
  | stop ho =>
      have hout : ¬L.out.Past := by rcases ho with ho | ho <;> simp [ho, OutPc.Past]
      simpa using h.post .kickTest L.token [] hout (by simp)
  | @leaveOut pc b hp hpc hb =>
      have hopen (hi : L.inp = .reading) (ho : L.pipesOpen = true) : b = true := by
        cases b with
        | true => rfl
        | false =>
            rcases hb rfl with hf | ⟨-, hd⟩
            · simp [ho] at hf
            · simp [hi] at hd
      cases h with
      | online ho hi hio hm => exact .online (hopen hi ho) hi hio hm
      | posted ho hi hio hp hm hms h0 => exact .posted (hopen hi ho) hi hio hpc hm hms h0
      | echoed ho hi hp hm hu hio hms h0 => exact .echoed (hopen hi ho) hi hpc hm hu hio hms h0
      | ended hi hp hm hu hio => exact .ended hi hpc hm hu hio
  | take hi hq => exact h.take hi hq
  | fail hi => exact he.elim
  | closeAll hi hn =>
      obtain ⟨hp, hm, hu, hio⟩ := h.left (by simp [hi])
      obtain ⟨rfl, rfl⟩ := hn.idle hu
      exact .ended (by simp) hp hm rfl (by simpa using hio)
  | leaveIn hi hpc hb =>
      obtain ⟨hp, hm, hu, hio⟩ := h.left hi
      exact .ended hpc hp hm hu hio

end Phase

end Link

end Adbd
