import Adbd.Core
import Adbd.Runs

/-!
# The Output of a Backup

`backup_service` returns the read end of the pipe from `bu`, and gives it to
`backup_child_waiter` as well, which closes it when it has waited for the child. The local
socket of the stream closes it, too, when it has read to the end or a read fails. Between the
two another thread may be given the number.

A `FDE_READ` of the socket reads until its packet is full or there is nothing more, hands the
packet to the peer, which wants no other before the host has acknowledged it, and closes the
stream at the end of the file or an error. When a descriptor is not open, `select` fails and
the read is made anyway, whether it is wanted or not.

Every byte that is read is marked with where it comes from.

## Main definitions

* `BackupRun`, `BackupAct`, `BackupRun.step`: the child, the waiter, the main loop and other
  users of the number, interleaved.
* `BackupRun.Clean`: all that the child wrote went to the host, and the descriptor was closed
  once, as what it was.
* `Undisturbed`: the waiter closes no pipe that holds bytes, and the stream reads nothing of
  others.

## Main results

* `BackupRun.Closers.step`: who has closed the descriptor.
* `BackupRun.sent_iff`: when all that the child wrote goes to the host.
* `BackupRun.finished_not_clean`: no run ends as it should.
-/

namespace Adbd

open Runs

/-- What the number of the descriptor stands for. -/
inductive FdUse
  | pipe
  | other
deriving DecidableEq, Repr

/-- Where `backup_child_waiter` stands: in `waitpid`, before `adb_close`, behind it. -/
inductive ChildWaiterPc
  | waits
  | closes
  | done
deriving DecidableEq, Repr

/-- A byte of the child, or of something else that was read. -/
inductive OutByte
  | child (b : UInt8)
  | other (b : UInt8)
deriving DecidableEq, Repr

/-- A byte of the child. -/
def OutByte.isChild : OutByte → Bool
  | .child _ => true
  | .other _ => false

/-- The child: whether it is alive, what it wrote, and what is still in the pipe. The waiter.
The number of the descriptor. The local socket: whether a read is wanted, the packet it fills,
whether the stream is open, and what was sent to the host. What each `adb_close` of the
descriptor hit. -/
structure BackupRun where
  alive : Bool := true
  written : List UInt8 := []
  pipe : List UInt8 := []
  waiter : ChildWaiterPc := .waits
  number : Option FdUse := some .pipe
  wanted : Bool := false
  filling : Option (List OutByte) := none
  stream : Bool := true
  sent : List OutByte := []
  closes : List (Option FdUse) := []
deriving DecidableEq, Repr

/-- What happens next: the child writes or exits; the waiter returns from `waitpid`, or closes;
the socket is told to go on, is called with `FDE_READ`, or calls `adb_read`, which gets at most
`n + 1` bytes of the pipe, or `r` of something else; someone is given the number, or gives it
back. -/
inductive BackupAct
  | write (bs : List UInt8)
  | exit
  | reap
  | waiterClose
  | ready
  | event
  | read (n : Nat) (r : ReadRes)
  | reuse
  | release
deriving DecidableEq, Repr

namespace BackupRun

/-- `adb_close` of the descriptor. -/
def adbClose (s : BackupRun) : BackupRun :=
  { s with number := none, closes := s.closes ++ [s.number] }

/-- The end of the `FDE_READ` branch: the packet is handed to the peer, unless it is empty, and
the stream is closed at the end of the file or an error. -/
def finish (s : BackupRun) (p : List OutByte) (isEof : Bool) : BackupRun :=
  let s := { s with
    filling := none
    sent := s.sent ++ p
    wanted := if p = [] then s.wanted else false }
  if isEof then { s.adbClose with stream := false } else s

/-- One `adb_read` of the loop, into the packet that holds `p`. -/
def adbRead (s : BackupRun) (p : List OutByte) (n : Nat) (r : ReadRes) : BackupRun :=
  let avail := MAX_PAYLOAD - p.length
  if avail = 0 then s.finish p false
  else
    match s.number with
    | some .pipe =>
        if s.pipe = [] then s.finish p (!s.alive)
        else
          let bs := s.pipe.take (min (n + 1) avail)
          { s with pipe := s.pipe.drop bs.length, filling := some (p ++ bs.map .child) }
    | some .other =>
        match r with
        | .data [] | .eof | .error => s.finish p true
        | .data (b :: bs) =>
            { s with filling := some (p ++ ((b :: bs).take avail).map .other) }
        | .eagain => s.finish p false
    | none => s.finish p true

/-- One step. -/
def step (s : BackupRun) : BackupAct → Option BackupRun
  | .write bs =>
      if s.alive then some { s with written := s.written ++ bs, pipe := s.pipe ++ bs }
        else none
  | .exit => if s.alive then some { s with alive := false } else none
  | .reap =>
      if s.alive = false ∧ s.waiter = .waits then some { s with waiter := .closes } else none
  | .waiterClose =>
      if s.waiter = .closes then some { s.adbClose with waiter := .done } else none
  | .ready => if s.stream then some { s with wanted := true } else none
  | .event =>
      if s.stream ∧ s.filling = none ∧ (s.wanted ∨ s.number = none) then
        some { s with filling := some [] }
      else none
  | .read n r => s.filling.map fun p => s.adbRead p n r
  | .reuse => if s.number = none then some { s with number := some .other } else none
  | .release => if s.number = some .other then some { s with number := none } else none

/-- The run is over: the child is gone, the waiter is through, and the stream is closed. -/
def Finished (s : BackupRun) : Prop := s.alive = false ∧ s.waiter = .done ∧ s.stream = false

/-- All that the child wrote was sent to the host. -/
def Sent (s : BackupRun) : Prop := s.sent = s.written.map .child

/-- **The output was delivered**: all that the child wrote was sent, and the descriptor was
closed once, when it was the pipe. -/
def Clean (s : BackupRun) : Prop := s.Sent ∧ s.closes = [some .pipe]

/-- **Nothing disturbs the stream**: the waiter closes no pipe that holds bytes, and the stream
reads nothing of others. -/
def Undisturbed (s : BackupRun) : BackupAct → Prop
  | .waiterClose => s.number = some .pipe → s.pipe = []
  | .read _ r => ∀ p, s.filling = some p → p.length < MAX_PAYLOAD → s.number = some .other →
      ∀ b bs, r ≠ .data (b :: bs)
  | _ => True

/-- What was read, with the packet that is being filled. -/
def got (s : BackupRun) : List OutByte := s.sent ++ s.filling.getD []

/-- **Who has closed the descriptor.** It is the pipe until one of the two has; the waiter
closes it when the child is gone, and the stream, while it is the pipe, when the pipe has come
to its end. -/
structure Closers (s : BackupRun) : Prop where
  closes : s.closes.length = (if s.waiter = .done then 1 else 0) + if s.stream then 0 else 1
  number : s.number = some .pipe ↔ s.waiter ≠ .done ∧ s.stream = true
  reaped : s.waiter ≠ .waits → s.alive = false
  closed : s.stream = false → s.alive = false ∧ s.filling = none

variable {s s' : BackupRun} {a : BackupAct} {p : List OutByte}

/-- **What one `adb_read` does.** -/
theorem adbRead_cases (s : BackupRun) (p : List OutByte) (n : Nat) (r : ReadRes) :
    (∃ isEof, s.adbRead p n r = s.finish p isEof ∧
        (isEof = true → s.number = some .pipe → s.pipe = [] ∧ s.alive = false) ∧
        (p.length < MAX_PAYLOAD → s.number = some .other → ∀ b bs, r ≠ .data (b :: bs))) ∨
      (∃ bs rest, s.number = some .pipe ∧ s.pipe = bs ++ rest ∧
        s.adbRead p n r = { s with pipe := rest, filling := some (p ++ bs.map .child) }) ∨
      (∃ b bs l, p.length < MAX_PAYLOAD ∧ s.number = some .other ∧ r = .data (b :: bs) ∧
        s.adbRead p n r = { s with filling := some (p ++ .other b :: l) }) := by
  by_cases hfull : MAX_PAYLOAD - p.length = 0
  · exact .inl ⟨false, by simp [adbRead, hfull], nofun, fun hlt => by omega⟩
  cases hn : s.number with
  | none => exact .inl ⟨true, by simp [adbRead, hfull, hn], nofun, nofun⟩
  | some u =>
  cases u with
  | pipe =>
      by_cases hp : s.pipe = []
      · exact .inl ⟨!s.alive, by simp [adbRead, hfull, hn, hp],
          fun he _ => ⟨hp, by simpa using he⟩, nofun⟩
      · let bs := s.pipe.take (min (n + 1) (MAX_PAYLOAD - p.length))
        have hsplit : bs ++ s.pipe.drop bs.length = s.pipe :=
          List.prefix_iff_eq_append.mp (List.take_prefix _ _)
        exact .inr (.inl ⟨bs, _, rfl, hsplit.symm, by simp [adbRead, hfull, hn, hp, bs]⟩)
  | other =>
  cases r with
  | eof => exact .inl ⟨true, by simp [adbRead, hfull, hn], nofun, fun _ _ => nofun⟩
  | error => exact .inl ⟨true, by simp [adbRead, hfull, hn], nofun, fun _ _ => nofun⟩
  | eagain => exact .inl ⟨false, by simp [adbRead, hfull, hn], nofun, fun _ _ => nofun⟩
  | data bs =>
  cases bs with
  | nil => exact .inl ⟨true, by simp [adbRead, hfull, hn], nofun, fun _ _ => nofun⟩
  | cons b bs =>
      obtain ⟨m, hm⟩ := Nat.exists_eq_succ_of_ne_zero hfull
      exact .inr (.inr ⟨b, bs, (bs.take m).map .other, by omega, rfl, rfl,
        by simp [adbRead, hn, hm]⟩)

@[simp] theorem got_finish (h : s.filling = some p) (isEof : Bool) :
    (s.finish p isEof).got = s.got := by
  cases isEof <;> simp [finish, adbClose, got, h]

/-! ### Who closes the descriptor -/

theorem Closers.finish (h : s.Closers) (hf : s.filling = some p) {isEof : Bool}
    (he : isEof = true → s.alive = false) : (s.finish p isEof).Closers := by
  have hstream : s.stream = true := by
    by_contra hs
    rw [(h.closed (by simpa using hs)).2] at hf
    cases hf
  have hclosed (hs : s.stream = false) : s.alive = false ∧
    (none : Option (List OutByte)) = none :=
    ⟨(h.closed hs).1, rfl⟩
  cases isEof with
  | false => exact ⟨h.closes, h.number, h.reaped, hclosed⟩
  | true =>
      have hlen := h.closes
      rw [hstream] at hlen
      refine ⟨?_, ?_, h.reaped, fun _ => ⟨he rfl, rfl⟩⟩
      · simpa [BackupRun.finish, adbClose] using hlen
      · simp [BackupRun.finish, adbClose]

/-- **Every step keeps this.** -/
theorem Closers.step (h : s.Closers) (hs : s.step a = some s') : s'.Closers := by
  cases a with
  | write bs =>
      obtain ⟨-, ⟨⟩⟩ := Option.ite_none_right_eq_some.mp hs
      exact ⟨h.closes, h.number, h.reaped, h.closed⟩
  | exit =>
      obtain ⟨-, ⟨⟩⟩ := Option.ite_none_right_eq_some.mp hs
      exact ⟨h.closes, h.number, fun _ => rfl, fun hc => ⟨rfl, (h.closed hc).2⟩⟩
  | reap =>
      obtain ⟨⟨hdead, hw⟩, ⟨⟩⟩ := Option.ite_none_right_eq_some.mp hs
      have hlen := h.closes
      have hnum := h.number
      rw [hw] at hlen hnum
      exact ⟨hlen, by simpa using hnum, fun _ => hdead, h.closed⟩
  | waiterClose =>
      obtain ⟨hw, ⟨⟩⟩ := Option.ite_none_right_eq_some.mp hs
      have hlen := h.closes
      have hdead := h.reaped (by rw [hw]; decide)
      rw [hw] at hlen
      refine ⟨?_, by simp [adbClose], fun _ => hdead, h.closed⟩
      rw [if_neg (by decide), Nat.zero_add] at hlen
      change (s.closes ++ [s.number]).length = 1 + _
      rw [List.length_append, hlen, Nat.add_comm]
      rfl
  | ready =>
      obtain ⟨-, ⟨⟩⟩ := Option.ite_none_right_eq_some.mp hs
      exact ⟨h.closes, h.number, h.reaped, h.closed⟩
  | event =>
      obtain ⟨⟨hopen, -, -⟩, ⟨⟩⟩ := Option.ite_none_right_eq_some.mp hs
      exact ⟨h.closes, h.number, h.reaped, fun hc => by simp_all⟩
  | read n r =>
      obtain ⟨p, hf, rfl⟩ := Option.map_eq_some_iff.mp hs
      have hopen (hc : s.stream = false) : False := by
        rw [(h.closed hc).2] at hf
        cases hf
      have hdead (hn : s.number ≠ some .pipe) : s.alive = false := by
        by_contra ha
        have hw : s.waiter ≠ .done := fun hw => ha (h.reaped (by rw [hw]; decide))
        exact hn (h.number.mpr ⟨hw, by simpa using fun hc => hopen hc⟩)
      rcases adbRead_cases s p n r with ⟨isEof, heq, heof, -⟩ | ⟨bs, rest, -, -, heq⟩ |
        ⟨b, bs, l, -, -, -, heq⟩
      · rw [heq]
        refine h.finish hf fun he => ?_
        by_cases hn : s.number = some .pipe
        · exact (heof he hn).2
        · exact hdead hn
      · rw [heq]
        exact ⟨h.closes, h.number, h.reaped, fun hc => (hopen hc).elim⟩
      · rw [heq]
        exact ⟨h.closes, h.number, h.reaped, fun hc => (hopen hc).elim⟩
  | reuse =>
      obtain ⟨hn, ⟨⟩⟩ := Option.ite_none_right_eq_some.mp hs
      have hnum := h.number
      rw [hn] at hnum
      exact ⟨h.closes, by simpa using hnum, h.reaped, h.closed⟩
  | release =>
      obtain ⟨hn, ⟨⟩⟩ := Option.ite_none_right_eq_some.mp hs
      have hnum := h.number
      rw [hn] at hnum
      exact ⟨h.closes, by simpa using hnum, h.reaped, h.closed⟩

theorem closers_init : Closers {} where
  closes := rfl
  number := by decide
  reaped := fun h => absurd rfl h
  closed := nofun

/-- **Both of them close it**, if the run goes on to its end. -/
theorem Closers.finished (h : s.Closers) (hf : s.Finished) : s.closes.length = 2 := by
  obtain ⟨-, hw, hs⟩ := hf
  rw [h.closes, hw, hs]
  rfl

/-! ### What is sent -/

/-- Nothing is lost so far: what was read and what is in the pipe is what the child wrote; when
the descriptor is closed, there is nothing in the pipe that is still to be read. -/
structure Kept (s : BackupRun) : Prop extends Closers s where
  content : s.written.map .child =
    s.got ++ if s.number = some .pipe then s.pipe.map .child else []

/-- Something is lost: a byte of something else was read, or the child is gone, the descriptor
is closed, and less was read than the child wrote. -/
structure Lost (s : BackupRun) : Prop extends Closers s where
  lost : (∃ b, .other b ∈ s.got) ∨
    s.number ≠ some .pipe ∧ s.alive = false ∧ s.got.countP OutByte.isChild < s.written.length

/-- A step adds to what was read only by reading. -/
theorem step_got (hs : s.step a = some s') (hr : ∀ n r, a ≠ .read n r) : s'.got = s.got := by
  cases a with
  | read n r => exact absurd rfl (hr n r)
  | event =>
      obtain ⟨⟨-, hf, -⟩, ⟨⟩⟩ := Option.ite_none_right_eq_some.mp hs
      simp [got, hf]
  | _ =>
      obtain ⟨-, ⟨⟩⟩ := Option.ite_none_right_eq_some.mp hs
      rfl

/-- **An undisturbed step loses nothing.** -/
theorem Kept.step (h : s.Kept) (hu : s.Undisturbed a) (hs : s.step a = some s') : s'.Kept := by
  refine ⟨h.toClosers.step hs, ?_⟩
  have hcontent := h.content
  cases a with
  | write bs =>
      have hgot := step_got hs nofun
      obtain ⟨halive, ⟨⟩⟩ := Option.ite_none_right_eq_some.mp hs
      have hn : s.number = some .pipe := by
        refine h.number.mpr ⟨fun hw => ?_, ?_⟩
        · rw [h.reaped (by rw [hw]; decide)] at halive
          cases halive
        · by_contra hc
          rw [(h.closed (by simpa using hc)).1] at halive
          cases halive
      rw [hgot]
      rw [hn] at hcontent ⊢
      simp only [if_true, List.map_append] at hcontent ⊢
      rw [hcontent, List.append_assoc]
  | read n r =>
      obtain ⟨p, hf, rfl⟩ := Option.map_eq_some_iff.mp hs
      rcases adbRead_cases s p n r with ⟨isEof, heq, heof, -⟩ | ⟨bs, rest, hn, hp, heq⟩ |
        ⟨b, bs, l, hlt, hn, hdata, -⟩
      · rw [heq, got_finish hf]
        cases isEof with
        | false => exact hcontent
        | true =>
            change s.written.map .child = s.got ++ []
            rw [hcontent]
            by_cases hn : s.number = some .pipe
            · rw [if_pos hn, (heof rfl hn).1, List.map_nil]
            · rw [if_neg hn]
      · rw [heq]
        rw [hn] at hcontent ⊢
        simp [got, hf, hp] at hcontent ⊢
        exact hcontent
      · exact absurd hdata (hu p hf hlt hn b bs)
  | waiterClose =>
      have hgot := step_got hs nofun
      obtain ⟨-, ⟨⟩⟩ := Option.ite_none_right_eq_some.mp hs
      rw [hgot]
      change s.written.map .child = s.got ++ []
      rw [hcontent]
      by_cases hn : s.number = some .pipe
      · rw [if_pos hn, hu hn, List.map_nil]
      · rw [if_neg hn]
  | reuse =>
      have hgot := step_got hs nofun
      obtain ⟨hn, ⟨⟩⟩ := Option.ite_none_right_eq_some.mp hs
      rw [hn] at hcontent
      rw [hgot]
      exact hcontent
  | release =>
      have hgot := step_got hs nofun
      obtain ⟨hn, ⟨⟩⟩ := Option.ite_none_right_eq_some.mp hs
      rw [hn] at hcontent
      rw [hgot]
      exact hcontent
  | _ =>
      have hgot := step_got hs nofun
      obtain ⟨-, ⟨⟩⟩ := Option.ite_none_right_eq_some.mp hs
      rw [hgot]
      exact hcontent

/-- **Any other step loses something.** -/
theorem Kept.lost (h : s.Kept) (hu : ¬s.Undisturbed a) (hs : s.step a = some s') :
    s'.Lost := by
  refine ⟨h.toClosers.step hs, ?_⟩
  cases a with
  | waiterClose =>
      have hgot := step_got hs nofun
      obtain ⟨hw, ⟨⟩⟩ := Option.ite_none_right_eq_some.mp hs
      obtain ⟨hn, hp⟩ := Classical.not_imp.mp hu
      have hcontent := congrArg (List.countP OutByte.isChild) h.content
      have hpos := List.length_pos_of_ne_nil hp
      refine .inr ⟨nofun, h.reaped (by rw [hw]; decide), ?_⟩
      rw [hgot]
      rw [if_pos hn, List.countP_append] at hcontent
      have hcount (l : List UInt8) : (l.map OutByte.child).countP OutByte.isChild =
        l.length := by
        simp [List.countP_map, Function.comp_def, OutByte.isChild]
      rw [hcount, hcount] at hcontent
      change _ < s.written.length
      omega
  | read n r =>
      obtain ⟨p, hf, rfl⟩ := Option.map_eq_some_iff.mp hs
      rcases adbRead_cases s p n r with ⟨isEof, heq, -, hquiet⟩ | ⟨bs, rest, hn, hp, heq⟩ |
        ⟨b, bs, l, hlt, hn, hdata, heq⟩
      · refine absurd (fun p' hf' hlt hn => ?_) hu
        obtain rfl := Option.some.inj (hf.symm.trans hf')
        exact hquiet hlt hn
      · refine absurd (fun _ _ _ hn' => ?_) hu
        rw [hn] at hn'
        cases hn'
      · rw [heq]
        exact .inl ⟨b, by simp [got]⟩
  | _ => exact absurd trivial hu

/-- What is lost stays lost if no more is read, and the number does not become the pipe's. -/
theorem Lost.same (h : s.Lost) (hgot : s'.got = s.got) (hw : s'.written = s.written)
    (ha : s.alive = false → s'.alive = false)
    (hn : s.number ≠ some .pipe → s'.number ≠ some .pipe) :
    (∃ b, .other b ∈ s'.got) ∨
      s'.number ≠ some .pipe ∧ s'.alive = false ∧
        s'.got.countP OutByte.isChild < s'.written.length := by
  rw [hgot, hw]
  rcases h.lost with hother | ⟨hnum, hdead, hlt⟩
  · exact .inl hother
  · exact .inr ⟨hn hnum, ha hdead, hlt⟩

/-- **What is lost stays lost.** -/
theorem Lost.step (h : s.Lost) (hs : s.step a = some s') : s'.Lost := by
  refine ⟨h.toClosers.step hs, ?_⟩
  cases a with
  | write bs =>
      have hgot := step_got hs nofun
      obtain ⟨halive, ⟨⟩⟩ := Option.ite_none_right_eq_some.mp hs
      rcases h.lost with hother | ⟨-, hdead, -⟩
      · rw [hgot]
        exact .inl hother
      · rw [halive] at hdead
        cases hdead
  | read n r =>
      obtain ⟨p, hf, rfl⟩ := Option.map_eq_some_iff.mp hs
      rcases adbRead_cases s p n r with ⟨isEof, heq, -, -⟩ | ⟨bs, rest, hn, hp, heq⟩ |
        ⟨b, bs, l, -, -, -, heq⟩
      · rw [heq]
        cases isEof with
        | false => exact h.same (got_finish hf false) rfl id id
        | true => exact h.same (got_finish hf true) rfl id fun _ => nofun
      · rw [heq]
        rcases h.lost with ⟨b, hb⟩ | ⟨hnum, -, -⟩
        · refine .inl ⟨b, ?_⟩
          rw [got, hf, Option.getD_some, List.mem_append] at hb
          rw [got, Option.getD_some, ← List.append_assoc, List.mem_append, List.mem_append]
          exact .inl hb
        · exact absurd hn hnum
      · rw [heq]
        exact .inl ⟨b, by simp [got]⟩
  | exit =>
      have hgot := step_got hs nofun
      obtain ⟨-, ⟨⟩⟩ := Option.ite_none_right_eq_some.mp hs
      exact h.same hgot rfl (fun _ => rfl) id
  | waiterClose | reuse | release =>
      have hgot := step_got hs nofun
      obtain ⟨-, ⟨⟩⟩ := Option.ite_none_right_eq_some.mp hs
      exact h.same hgot rfl id fun _ => nofun
  | reap | ready | event =>
      have hgot := step_got hs nofun
      obtain ⟨-, ⟨⟩⟩ := Option.ite_none_right_eq_some.mp hs
      exact h.same hgot rfl id id

theorem kept_init : Kept {} := ⟨closers_init, rfl⟩

variable {as : List BackupAct}

/-- **When all that the child wrote goes to the host**, in a run that goes on to its end:
exactly if nothing disturbs the stream. -/
theorem sent_iff (hrun : as.foldlM step {} = some s) (hf : s.Finished) :
    s.Sent ↔ AlongSteps step Undisturbed {} as := by
  have hnum (h : s.Closers) : s.number ≠ some .pipe := fun hn => (h.number.mp hn).1 hf.2.1
  have hgot (h : s.Closers) : s.got = s.sent := by rw [got, (h.closed hf.2.2).2]; simp
  refine alongSteps_iff_of_end (P := Sent) (fun _ _ _ h hu hs => h.step hu hs)
    (fun _ _ _ h hu hs => h.lost hu hs) (fun _ _ _ h hs => h.step hs) kept_init hrun
    (fun h => ?_) fun h hsent => ?_
  · have hcontent := h.content
    rw [if_neg (hnum h.toClosers), hgot h.toClosers, List.append_nil] at hcontent
    exact hcontent.symm
  · have hlost := h.lost
    rw [hgot h.toClosers, hsent] at hlost
    rcases hlost with ⟨b, hb⟩ | ⟨-, -, hlt⟩
    · simp at hb
    · simp [List.countP_map, Function.comp_def, OutByte.isChild] at hlt

/-- **No run ends as it should**: whatever order the threads take, the descriptor is closed
twice, and the second time it is not the pipe. What the child wrote was sent all the same
exactly if nothing disturbed the stream. -/
theorem finished_not_clean (hrun : as.foldlM step {} = some s) (hf : s.Finished) :
    ¬s.Clean ∧ s.closes.length = 2 ∧ (s.Sent ↔ AlongSteps step Undisturbed {} as) := by
  have hclosers : s.Closers := inv_of_foldlM (fun _ _ _ h hs => h.step hs) closers_init hrun
  have htwo := hclosers.finished hf
  refine ⟨fun hclean => ?_, htwo, sent_iff hrun hf⟩
  rw [hclean.2] at htwo
  cases htwo

/-- The child writes a byte and exits; the stream reads it and closes, and so does the
waiter. -/
def backupRead : List BackupAct :=
  [.write [1], .exit, .ready, .event, .read 0 .eof, .read 0 .eof, .reap, .waiterClose]

/-- Nothing is lost in this order, but a descriptor is closed that is not the stream's. -/
theorem finished_not_clean_read :
    ∃ s, backupRead.foldlM step {} = some s ∧ ¬s.Clean ∧ s.closes.length = 2 ∧
      (s.Sent ↔ AlongSteps step Undisturbed {} backupRead) :=
  ⟨_, rfl, finished_not_clean rfl ⟨rfl, rfl, rfl⟩⟩

/-- The waiter is first: the byte is lost. Another thread has been given the number when the
stream closes it. -/
theorem backup_loses_output : ∃ s : BackupRun,
    [.write [1], .exit, .reap, .waiterClose, .reuse, .ready, .event,
      .read 0 .eof].foldlM step {} = some s ∧
    s.Finished ∧ s.written = [1] ∧ s.sent = [] ∧ s.closes = [some .pipe, some .other] ∧
    ¬s.Clean := by
  refine ⟨_, rfl, ⟨rfl, rfl, rfl⟩, rfl, rfl, rfl, ?_⟩
  rintro ⟨-, hcloses⟩
  cases hcloses

end BackupRun

end Adbd
