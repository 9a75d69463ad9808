import Adbd.JdwpList
import Mathlib.Algebra.Ring.Nat

/-!
# The JDWP Processes

`jdwp_service.c` keeps a `JdwpProcess` for every virtual machine that connects to the control
socket. Its read events take in a greeting of four characters, the pid, and from then on drop
what else comes, until the connection ends. Its write events pass the descriptors on that
`create_jdwp_connection_fd` queued for it. The model has a connection as what its `recv` calls
will meet, descriptors as tokens that are never given out twice, and three logs: what was
queued, what was passed on and what was closed.

## Main definitions

* `Conn`, `Conn.recv`: a connection, and `recv` on it.
* `sscanf04x`: `sscanf(temp, "%04x", ..)`.
* `Reader.read`: the branch for `FDE_READ` of `jdwp_process_event`.
* `State.writeEvent`, `State.jdwpProcessFree`, `State.createJdwpConnectionFd`: the functions on
  the list.
* `State.step`: what can happen to the list.
-/

namespace Adbd.Jdwp

/-- `MAX_OUT_FDS`. -/
def maxOutFds : Nat := 4

/-! ### Connections -/

/-- What a `recv` on a connection meets: some bytes, a signal, or nothing yet. -/
inductive Arrival
  | data (b : UInt8) (bs : List UInt8)
  | eintr
  | eagain

/-- How a connection goes on when all that arrives has been read. -/
inductive Ending
  | stays
  | eof
  | error
deriving DecidableEq

/-- A connection: what the `recv` calls on it will meet. -/
structure Conn where
  arrivals : List Arrival := []
  ending : Ending := .stays

/-- The result of `recv`: bytes, of which there is one at least, the end, or an `errno`. -/
inductive Recv
  | got (b : UInt8) (bs : List UInt8)
  | eof
  | eintr
  | eagain
  | error

/-- `recv(socket, p, size, 0)`, for a `size` other than zero. -/
def Conn.recv (c : Conn) (size : Nat) : Recv × Conn :=
  match c.arrivals with
  | [] =>
      match c.ending with
      | .stays => (.eagain, c)
      | .eof => (.eof, c)
      | .error => (.error, c)
  | .eintr :: rest => (.eintr, { c with arrivals := rest })
  | .eagain :: rest => (.eagain, { c with arrivals := rest })
  | .data b bs :: rest =>
      match bs.drop (size - 1) with
      | [] => (.got b bs, { c with arrivals := rest })
      | b' :: bs' => (.got b (bs.take (size - 1)), { c with arrivals := .data b' bs' :: rest })

/-- The number of `recv` calls that an arrival is good for. -/
def Arrival.weight : Arrival → Nat
  | .data _ bs => bs.length + 1
  | .eintr => 1
  | .eagain => 1

/-- The number of `recv` calls that do not find the connection at its end. -/
def Conn.weight (c : Conn) : Nat := (c.arrivals.map Arrival.weight).sum

/-- The bytes of an arrival. -/
def Arrival.bytes : Arrival → List UInt8
  | .data b bs => b :: bs
  | .eintr => []
  | .eagain => []

/-- The bytes that a connection has still to give. -/
def Conn.bytes (c : Conn) : List UInt8 := c.arrivals.flatMap Arrival.bytes

/-- What is left of the connection after a `recv`: the bytes it gave are gone from the
front. -/
structure Conn.Received (c : Conn) (taken : List UInt8) (size : Nat) (c' : Conn) : Prop where
  bytes : c.bytes = taken ++ c'.bytes
  ending : c'.ending = c.ending
  short : taken.length ≤ size
  less : c'.weight < c.weight

/-- `recv` gives what arrives, or the connection has nothing more to give. -/
theorem Conn.recv_cases (c : Conn) {size : Nat} (h : 0 < size) :
    (∃ b bs c', c.recv size = (.got b bs, c') ∧ c.Received (b :: bs) size c') ∨
      (∃ c', c.recv size = (.eintr, c') ∧ c.Received [] size c') ∨
      (∃ c', c.recv size = (.eagain, c') ∧ c.Received [] size c') ∨
      (c.arrivals = [] ∧ c.ending = .stays ∧ c.recv size = (.eagain, c)) ∨
      (c.arrivals = [] ∧ c.ending = .eof ∧ c.recv size = (.eof, c)) ∨
      (c.arrivals = [] ∧ c.ending = .error ∧ c.recv size = (.error, c)) := by
  obtain ⟨arrivals, ending⟩ := c
  cases arrivals with
  | nil => cases ending <;> simp [Conn.recv]
  | cons a rest =>
      have hone : ∀ k, 0 < k → (rest.map Arrival.weight).sum < k +
        (rest.map Arrival.weight).sum :=
        fun k hk => Nat.lt_add_of_pos_left hk
      cases a with
      | eintr =>
          exact .inr (.inl ⟨⟨rest, ending⟩, rfl, rfl, rfl, Nat.zero_le _, hone 1 Nat.one_pos⟩)
      | eagain =>
          exact .inr (.inr (.inl ⟨⟨rest, ending⟩, rfl, rfl, rfl, Nat.zero_le _,
            hone 1 Nat.one_pos⟩))
      | data b bs =>
          have hlen : (bs.drop (size - 1)).length = bs.length - (size - 1) := List.length_drop
          cases hdrop : bs.drop (size - 1) with
          | nil =>
              rw [hdrop, List.length_nil] at hlen
              refine .inl ⟨b, bs, ⟨rest, ending⟩, by simp only [Conn.recv, hdrop],
                rfl, rfl, ?_, hone _ (Nat.succ_pos _)⟩
              rw [List.length_cons]
              omega
          | cons b' bs' =>
              have hcut : bs.take (size - 1) ++ b' :: bs' = bs := by
                rw [← hdrop, List.take_append_drop]
              rw [hdrop, List.length_cons] at hlen
              refine .inl ⟨b, bs.take (size - 1), ⟨.data b' bs' :: rest, ending⟩,
                by simp only [Conn.recv, hdrop], ?_, rfl, ?_, ?_⟩
              · have happ := congrArg (b :: · ++ rest.flatMap Arrival.bytes) hcut.symm
                simpa [Conn.bytes, Arrival.bytes] using happ
              · rw [List.length_cons, List.length_take]
                omega
              · simp only [Conn.weight, Arrival.weight, List.map_cons, List.sum_cons]
                omega

variable {c c' : Conn} {size : Nat} {b : UInt8} {bs : List UInt8}

/-- The bytes that `recv` gave. -/
theorem Conn.received_got (h : 0 < size) (hrecv : c.recv size = (.got b bs, c')) :
    c.Received (b :: bs) size c' := by
  have hcases := c.recv_cases h
  simp only [hrecv, Prod.mk.injEq, reduceCtorEq, Recv.got.injEq, false_and, and_false,
    exists_false, or_false] at hcases
  obtain ⟨b', bs', d, ⟨⟨rfl, rfl⟩, rfl⟩, hgot⟩ := hcases
  exact hgot

/-- A signal gave none. -/
theorem Conn.received_eintr (h : 0 < size) (hrecv : c.recv size = (.eintr, c')) :
    c.Received [] size c' := by
  have hcases := c.recv_cases h
  simp only [hrecv, Prod.mk.injEq, reduceCtorEq, false_and, and_false, true_and, exists_false,
    false_or, or_false] at hcases
  obtain ⟨d, rfl, hgot⟩ := hcases
  exact hgot

/-- And nothing came, or nothing will. -/
theorem Conn.received_eagain (h : 0 < size) (hrecv : c.recv size = (.eagain, c')) :
    c.Received [] size c' ∨ (c' = c ∧ c.bytes = [] ∧ c.ending = .stays) := by
  have hcases := c.recv_cases h
  simp only [hrecv, Prod.mk.injEq, reduceCtorEq, false_and, and_false, true_and, exists_false,
    false_or, or_false] at hcases
  rcases hcases with ⟨d, rfl, hgot⟩ | ⟨hnil, hstays, rfl⟩
  · exact .inl hgot
  · exact .inr ⟨rfl, by simp [Conn.bytes, hnil], hstays⟩

/-- The connection is at its end. -/
theorem Conn.received_end (h : 0 < size) (hrecv : c.recv size = (.eof, c') ∨
    c.recv size = (.error, c')) : c' = c ∧ c.bytes = [] := by
  have hcases := c.recv_cases h
  rcases hrecv with hrecv | hrecv <;>
  · simp only [hrecv, Prod.mk.injEq, reduceCtorEq, false_and, and_false, true_and,
      exists_false, false_or, or_false] at hcases
    exact ⟨hcases.2.2, by simp [Conn.bytes, hcases.1]⟩

/-! ### The greeting -/

/-- `isspace`. -/
def isspace (b : UInt8) : Bool := b = 32 || (9 ≤ b && b ≤ 13)

/-- The number that the longest run of hexadecimal digits at the front stands for. -/
def hexRun (bs : List UInt8) : Option Nat :=
  match bs.takeWhile fun b => (hexDigit b).isSome with
  | [] => none
  | d :: ds => hexValue (d :: ds)

/-- The number that `%x` takes behind the sign. A `0x` is part of it, and digits must
follow. -/
def hexNumber : List UInt8 → Option Nat
  | 48 :: 120 :: bs => hexRun bs
  | 48 :: 88 :: bs => hexRun bs
  | bs => hexRun bs

/-- `sscanf(temp, "%04x", ..)`: blanks are skipped, and of the next four characters a sign and
a number are taken. -/
def sscanf04x (temp : List UInt8) : Option Int :=
  match ((cstr temp).dropWhile isspace).take 4 with
  | 45 :: bs => (hexNumber bs).map fun n : Nat => -(n : Int)
  | 43 :: bs => (hexNumber bs).map fun n : Nat => (n : Int)
  | bs => (hexNumber bs).map fun n : Nat => (n : Int)

/-- What the read events of a process use: the pid, `in_buff` with the `in_len` characters in
it, and the connection. The stream is the connection as it was accepted. -/
structure Reader where
  pid : Int := -1
  inBuff : List UInt8 := []
  conn : Conn
  stream : Conn

/-- How a branch of `jdwp_process_event` ends: it returns, it goes to `CloseProcess`, or it
goes on with the next branch. -/
inductive Outcome
  | wait
  | close
  | go
deriving DecidableEq

/-- The loop that reads the pid. -/
def Reader.readPid (r : Reader) : Outcome × Reader :=
  if _hsize : 0 < 4 - r.inBuff.length then
    match _hrecv : r.conn.recv (4 - r.inBuff.length) with
    | (.got b bs, c) => Reader.readPid { r with conn := c, inBuff := r.inBuff ++ b :: bs }
    | (.eintr, c) => Reader.readPid { r with conn := c }
    | (.eagain, c) => (.wait, { r with conn := c })
    | (.eof, c) => (.close, { r with conn := c })
    | (.error, c) => (.close, { r with conn := c })
  else (.go, r)
termination_by r.conn.weight
decreasing_by
  · exact (Conn.received_got ‹_› ‹_›).less
  · exact (Conn.received_eintr ‹_› ‹_›).less

/-- The loop goes on behind the bytes that it got. -/
theorem Reader.readPid_got {r : Reader} (h : 0 < 4 - r.inBuff.length)
    (hrecv : r.conn.recv (4 - r.inBuff.length) = (.got b bs, c)) :
    r.readPid = Reader.readPid { r with conn := c, inBuff := r.inBuff ++ b :: bs } := by
  rw [Reader.readPid, dif_pos h]
  split <;> simp_all

/-- The loop that drops what comes after the pid. -/
def Reader.discard (r : Reader) : Outcome × Reader :=
  match _hrecv : r.conn.recv 32 with
  | (.got _ _, c) => Reader.discard { r with conn := c }
  | (.eintr, c) => Reader.discard { r with conn := c }
  | (.eagain, c) => (.wait, { r with conn := c })
  | (.eof, c) => (.close, { r with conn := c })
  | (.error, c) => (.close, { r with conn := c })
termination_by r.conn.weight
decreasing_by
  · exact (Conn.received_got (Nat.zero_lt_succ 31) ‹_›).less
  · exact (Conn.received_eintr (Nat.zero_lt_succ 31) ‹_›).less

/-- The branch of `jdwp_process_event` for `FDE_READ`. A pid that is not negative stands for a
greeting that has been read. -/
def Reader.read (r : Reader) : Outcome × Reader :=
  if r.pid < 0 then
    match r.readPid with
    | (.go, r) =>
        match sscanf04x r.inBuff with
        | some pid => (.go, { r with pid })
        | none => (.close, r)
    | (o, r) => (o, r)
  else r.discard

/-! ### The list -/

/-- A `JdwpProcess`. Of `out_fds` the first `out_count` are queued; `writing` is the interest
in `FDE_WRITE`. -/
structure JdwpProcess extends Reader where
  id : Nat
  outFds : Nat → Nat := fun _ => 0
  outCount : Nat := 0
  writing : Bool := false

/-- `_jdwp_list`, the number of the next process, the token of the next descriptor, and the
logs of the descriptors that were queued and passed on, each with its process, and closed. -/
structure State where
  procs : List JdwpProcess := []
  nextId : Nat := 0
  nextFd : Nat := 0
  queued : List (Nat × Nat) := []
  sent : List (Nat × Nat) := []
  closed : List Nat := []

/-- The results of the calls of a write event: `fcntl(F_GETFL)`, the `fcntl` that removes
`O_NONBLOCK`, `sendmsg` after its retries, and the `fcntl` that restores the flags. -/
structure WriteIo where
  getfl : Bool := true
  setfl : Bool := true
  sendmsg : Bool := true
  restore : Bool := true

/-- The descriptors that are queued. -/
def JdwpProcess.outQueue (p : JdwpProcess) : List Nat := (List.range p.outCount).map p.outFds

/-- The loop that shifts `out_fds`. The number of descriptors is as before. -/
def JdwpProcess.shift (p : JdwpProcess) : JdwpProcess :=
  { p with outFds := fun n => if n + 1 < p.outCount then p.outFds (n + 1) else p.outFds n }

/-- Writes a process back. -/
def State.put (s : State) (p : JdwpProcess) : State :=
  { s with procs := s.procs.map fun q => if q.id = p.id then p else q }

/-- `jdwp_process_alloc`. -/
def State.jdwpProcessAlloc (s : State) (conn : Conn) : State :=
  { s with
    procs := s.procs ++ [{ id := s.nextId, conn, stream := conn }]
    nextId := s.nextId + 1 }

/-- `jdwp_process_free`. -/
def State.jdwpProcessFree (s : State) (p : JdwpProcess) : State :=
  { s with
    procs := s.procs.filter fun q => q.id ≠ p.id
    closed := s.closed ++ p.outQueue }

/-- The branch of `jdwp_process_event` for `FDE_WRITE`. -/
def State.writeEvent (s : State) (p : JdwpProcess) (io : WriteIo) : State :=
  if p.outCount > 0 then
    let fd := p.outFds 0
    if io.getfl && io.setfl && io.sendmsg then
      let s := { s with sent := s.sent ++ [(p.id, fd)], closed := s.closed ++ [fd] }
      let p := p.shift
      if io.restore then
        let p := { p with outCount := p.outCount - 1 }
        s.put (if p.outCount = 0 then { p with writing := false } else p)
      else s.jdwpProcessFree p
    else s.jdwpProcessFree p
  else s.put p

/-- `jdwp_process_event`. -/
def State.jdwpProcessEvent (s : State) (p : JdwpProcess) (read write : Bool) (io : WriteIo) :
    State :=
  match if read then p.read else (.go, p.toReader) with
  | (.wait, r) => s.put { p with toReader := r }
  | (.close, r) => s.jdwpProcessFree { p with toReader := r }
  | (.go, r) =>
      if write then s.writeEvent { p with toReader := r } io
        else s.put { p with toReader := r }

/-- `create_jdwp_connection_fd`, where `paired` is whether there is a socket pair. -/
def State.createJdwpConnectionFd (s : State) (pid : Int) (paired : Bool) : State :=
  match s.procs.find? fun p => p.pid = pid with
  | none => s
  | some p =>
      if p.outCount ≥ maxOutFds then s
      else if paired then
        let p' := { p with
          outFds := fun n => if n = p.outCount then s.nextFd else p.outFds n
          outCount := p.outCount + 1 }
        let s := s.put (if p'.outCount = 1 then { p' with writing := true } else p')
        { s with nextFd := s.nextFd + 1, queued := s.queued ++ [(p.id, s.nextFd)] }
      else s

/-- What can happen: a connection is accepted, an event comes for a process of the list, or a
service for a pid is opened. -/
inductive Act
  | accept (conn : Conn)
  | event (id : Nat) (read write : Bool) (io : WriteIo)
  | create (pid : Int) (paired : Bool)

/-- What an action does. There are no events for processes that have been freed. -/
def step (s : State) : Act → Option State
  | .accept conn => some (s.jdwpProcessAlloc conn)
  | .event id read write io =>
      (s.procs.find? fun p => p.id = id).map fun p => s.jdwpProcessEvent p read write io
  | .create pid paired => some (s.createJdwpConnectionFd pid paired)

end Adbd.Jdwp
