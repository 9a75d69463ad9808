import Adbd.JdwpProcess
import Adbd.Runs
import Mathlib.Data.List.TakeWhile

/-!
# The Greeting of a JDWP Process

A connection is to be identified by its first four bytes or dropped, and dropped when it ends.
It is, unless `sscanf` takes a negative number from the four bytes: the sign of the pid tells
whether the greeting has been read, so the process keeps its place in the list, is in no text
of the list, and its read events decode the four bytes again and do not look at the connection
any more.

## Main definitions

* `IdentifiedOrDropped`: what is expected of a connection.
* `NegativeGreeting`: the first four bytes are a minus sign and a number.

## Main results

* `sscanf04x_neg_iff`: when `sscanf` takes a negative number.
* `identified_or_dropped_iff`: the connections that are identified or dropped.
-/

namespace Adbd.Jdwp

open Runs

variable {r r' : Reader} {o : Outcome} {s t : State} {p q : JdwpProcess} {a : Act}
    {as : List Act}

/-! ### Reading -/

/-- What the loop that reads the pid does. -/
structure Reader.PidRead (r : Reader) (o : Outcome) (r' : Reader) : Prop where
  pid : r'.pid = r.pid
  stream : r'.stream = r.stream
  ending : r'.conn.ending = r.conn.ending
  bytes : r'.inBuff ++ r'.conn.bytes = r.inBuff ++ r.conn.bytes
  isPrefix : r.inBuff <+: r'.inBuff
  short : r'.inBuff.length ≤ 4
  full : o = .go ↔ r'.inBuff.length = 4
  weight : r'.conn.weight ≤ r.conn.weight
  less : r.inBuff.length < 4 → o = .go → r'.conn.weight < r.conn.weight
  waits : o = .wait → r'.conn.weight < r.conn.weight ∨
    r'.conn.bytes = [] ∧ r.conn.ending = .stays
  ended : o = .close → r'.conn.bytes = []

/-- A `recv` and what the loop does after it. -/
theorem Reader.PidRead.recv {taken : List UInt8} {c : Conn}
    (hgot : r.conn.Received taken (4 - r.inBuff.length) c)
    (hloop : Reader.PidRead { r with conn := c, inBuff := r.inBuff ++ taken } o r') :
    r.PidRead o r' where
  pid := hloop.pid
  stream := hloop.stream
  ending := hloop.ending.trans hgot.ending
  bytes := by
    rw [hloop.bytes, hgot.bytes, List.append_assoc]
  isPrefix := (List.prefix_append _ _).trans hloop.isPrefix
  short := hloop.short
  full := hloop.full
  weight := Nat.le_trans hloop.weight (Nat.le_of_lt hgot.less)
  less := fun _ _ => Nat.lt_of_le_of_lt hloop.weight hgot.less
  waits := fun _ => .inl (Nat.lt_of_le_of_lt hloop.weight hgot.less)
  ended := hloop.ended

/-- Where the loop stops without a change. -/
theorem Reader.PidRead.stop (h : r.inBuff.length ≤ 4) (hfull : o = .go ↔ r.inBuff.length = 4)
    (hwaits : o = .wait → r.conn.bytes = [] ∧ r.conn.ending = .stays)
    (hended : o = .close → r.conn.bytes = []) : r.PidRead o r where
  pid := rfl
  stream := rfl
  ending := rfl
  bytes := rfl
  isPrefix := List.prefix_refl _
  short := h
  full := hfull
  weight := Nat.le_refl _
  less := fun hlt hgo => absurd (hfull.mp hgo) (Nat.ne_of_lt hlt)
  waits := fun ho => .inr (hwaits ho)
  ended := hended

theorem Reader.readPid_spec (h : r.inBuff.length ≤ 4) : r.PidRead r.readPid.1 r.readPid.2 := by
  fun_induction Reader.readPid r with
  | case1 r hsize b bs c hrecv ih =>
      have hgot := Conn.received_got hsize hrecv
      have hshort := hgot.short
      exact .recv hgot (ih (by rw [List.length_append]; omega))
  | case2 r hsize c hrecv ih =>
      refine .recv (Conn.received_eintr hsize hrecv) ?_
      rw [List.append_nil]
      exact ih h
  | case3 r hsize c hrecv =>
      have hne : r.inBuff.length ≠ 4 := by omega
      rcases Conn.received_eagain hsize hrecv with hgot | ⟨rfl, hnil⟩
      · exact
          { pid := rfl, stream := rfl, ending := hgot.ending,
            bytes := congrArg (r.inBuff ++ ·) hgot.bytes.symm,
            isPrefix := List.prefix_refl _, short := h, full := iff_of_false nofun hne,
            weight := Nat.le_of_lt hgot.less, less := nofun, waits := fun _ => .inl hgot.less,
            ended := nofun }
      · exact .stop h (iff_of_false nofun hne) (fun _ => hnil) nofun
  | case4 r hsize c hrecv =>
      obtain ⟨rfl, hnil⟩ := Conn.received_end hsize (.inl hrecv)
      exact .stop h (iff_of_false nofun (by omega)) nofun fun _ => hnil
  | case5 r hsize c hrecv =>
      obtain ⟨rfl, hnil⟩ := Conn.received_end hsize (.inr hrecv)
      exact .stop h (iff_of_false nofun (by omega)) nofun fun _ => hnil
  | case6 r hsize => exact .stop h (iff_of_true rfl (by omega)) nofun nofun

/-- What the loop that drops bytes does. -/
structure Reader.Discarded (r : Reader) (o : Outcome) (r' : Reader) : Prop where
  keeps : r' = { r with conn := r'.conn }
  ending : r'.conn.ending = r.conn.ending
  weight : r'.conn.weight ≤ r.conn.weight
  ends : o ≠ .go
  waits : o = .wait → r'.conn.weight < r.conn.weight ∨ r.conn.ending = .stays

theorem Reader.Discarded.recv {taken : List UInt8} {c : Conn} {size : Nat}
    (hgot : r.conn.Received taken size c)
    (hloop : Reader.Discarded { r with conn := c } o r') : r.Discarded o r' where
  keeps := hloop.keeps
  ending := hloop.ending.trans hgot.ending
  weight := Nat.le_trans hloop.weight (Nat.le_of_lt hgot.less)
  ends := hloop.ends
  waits := fun _ => .inl (Nat.lt_of_le_of_lt hloop.weight hgot.less)

theorem Reader.discard_spec (r : Reader) : r.Discarded r.discard.1 r.discard.2 := by
  have hsize : 0 < 32 := by decide
  fun_induction Reader.discard r with
  | case1 r b bs c hrecv ih => exact .recv (Conn.received_got hsize hrecv) ih
  | case2 r c hrecv ih => exact .recv (Conn.received_eintr hsize hrecv) ih
  | case3 r c hrecv =>
      rcases Conn.received_eagain hsize hrecv with hgot | ⟨rfl, -, hstays⟩
      · exact ⟨rfl, hgot.ending, Nat.le_of_lt hgot.less, nofun, fun _ => .inl hgot.less⟩
      · exact ⟨rfl, rfl, Nat.le_refl _, nofun, fun _ => .inr hstays⟩
  | case4 r c hrecv =>
      obtain ⟨rfl, -⟩ := Conn.received_end hsize (.inl hrecv)
      exact ⟨rfl, rfl, Nat.le_refl _, nofun, nofun⟩
  | case5 r c hrecv =>
      obtain ⟨rfl, -⟩ := Conn.received_end hsize (.inr hrecv)
      exact ⟨rfl, rfl, Nat.le_refl _, nofun, nofun⟩

/-! ### The sign -/

/-- The first four bytes are a negative number: blanks, a minus sign and a number. -/
def NegativeGreeting (bs : List UInt8) : Prop :=
  4 ≤ bs.length ∧ ∃ blanks rest n, cstr (bs.take 4) = blanks ++ 45 :: rest ∧
    (∀ b ∈ blanks, isspace b) ∧ hexNumber rest = some n ∧ n ≠ 0

/-- `sscanf` takes a negative number behind blanks and a minus sign only. -/
theorem sscanf04x_neg_iff {temp : List UInt8} (h : temp.length ≤ 4) :
    (∃ pid < 0, sscanf04x temp = some pid) ↔
      ∃ blanks rest n, cstr temp = blanks ++ 45 :: rest ∧ (∀ b ∈ blanks, isspace b) ∧
        hexNumber rest = some n ∧ n ≠ 0 := by
  have hshort : ((cstr temp).dropWhile isspace).length ≤ 4 :=
    Nat.le_trans (List.dropWhile_sublist _).length_le
      (Nat.le_trans (List.takeWhile_sublist _).length_le h)
  rw [sscanf04x, List.take_of_length_le hshort]
  constructor
  · rintro ⟨pid, hneg, hscan⟩
    split at hscan
    · next rest hrest =>
      obtain ⟨n, hn, rfl⟩ := Option.map_eq_some_iff.mp hscan
      refine ⟨(cstr temp).takeWhile isspace, rest, n, ?_, fun b => List.mem_takeWhile_imp, hn,
        by omega⟩
      rw [← hrest, List.takeWhile_append_dropWhile]
    · next rest hrest =>
      obtain ⟨n, -, rfl⟩ := Option.map_eq_some_iff.mp hscan
      omega
    · next rest hminus hplus =>
      obtain ⟨n, -, rfl⟩ := Option.map_eq_some_iff.mp hscan
      omega
  · rintro ⟨blanks, rest, n, hstr, hblank, hn, hzero⟩
    have hdrop : (blanks ++ 45 :: rest).dropWhile isspace = 45 :: rest := by
      rw [List.dropWhile_append_of_pos hblank]
      rfl
    refine ⟨-(n : Int), by omega, ?_⟩
    rw [hstr, hdrop]
    simp [hn]

/-! ### One read event -/

/-- The reader of a process, before and after its read events. -/
structure Reader.Valid (r : Reader) : Prop where
  ending : r.conn.ending = r.stream.ending
  weight : r.conn.weight ≤ r.stream.weight
  short : r.inBuff.length ≤ 4
  isPrefix : r.inBuff <+: r.stream.bytes
  reading : r.inBuff.length < 4 → r.pid = -1 ∧ r.inBuff ++ r.conn.bytes = r.stream.bytes
  scanned : r.inBuff.length = 4 → sscanf04x r.inBuff = some r.pid

/-- The greeting is in the buffer. -/
theorem Reader.Valid.greeting (h : r.Valid) (hfull : r.inBuff.length = 4) :
    4 ≤ r.stream.bytes.length ∧ r.stream.bytes.take 4 = r.inBuff := by
  have hlen := h.isPrefix.length_le
  exact ⟨by omega, hfull ▸ (List.prefix_iff_eq_take.mp h.isPrefix).symm⟩

/-- **The sign of the pid** of a process that has read its greeting. -/
theorem Reader.Valid.pid_neg_iff (h : r.Valid) (hfull : r.inBuff.length = 4) :
    r.pid < 0 ↔ NegativeGreeting r.stream.bytes := by
  obtain ⟨hlen, htake⟩ := h.greeting hfull
  rw [NegativeGreeting, htake, ← sscanf04x_neg_iff (Nat.le_of_eq hfull), h.scanned hfull]
  simp [hlen]

/-- What a read event does that does not end the process. -/
structure Reader.Continues (r r' : Reader) : Prop where
  valid : r'.Valid
  stream : r'.stream = r.stream
  weight : r'.conn.weight ≤ r.conn.weight
  less : ¬NegativeGreeting r.stream.bytes → r.stream.ending ≠ .stays →
    r'.conn.weight < r.conn.weight
  reads : r.inBuff.length < 4 → r'.inBuff.length = 4 ∨ r'.conn.weight < r.conn.weight ∨
    r'.conn.bytes = []

/-- While the greeting is read, nothing is lost of the stream. -/
theorem Reader.PidRead.stays_valid (hread : r.PidRead .wait r') (h : r.Valid)
    (hreading : r.inBuff.length < 4) : r.Continues r' := by
  have hne : r'.inBuff.length ≠ 4 := fun hfull => nomatch hread.full.mpr hfull
  obtain ⟨hpid, hbytes⟩ := h.reading hreading
  have hstream : r'.inBuff ++ r'.conn.bytes = r'.stream.bytes := by
    rw [hread.bytes, hbytes, hread.stream]
  refine ⟨⟨?_, ?_, hread.short, ?_, fun _ => ⟨hread.pid.trans hpid, hstream⟩,
    fun hfull => absurd hfull hne⟩, hread.stream, hread.weight, fun _ hstays => ?_,
      fun _ => ?_⟩
  · rw [hread.ending, hread.stream, h.ending]
  · rw [hread.stream]
    exact Nat.le_trans hread.weight h.weight
  · rw [← hstream]
    exact List.prefix_append _ _
  · exact (hread.waits rfl).resolve_right fun hend => hstays (h.ending ▸ hend.2)
  · exact .inr ((hread.waits rfl).imp_right fun hend => hend.1)

/-- The read event that takes in the last of the greeting, or finds it read already. -/
theorem Reader.PidRead.decodes (hread : r.PidRead .go r') (h : r.Valid) (hneg : r.pid < 0)
    {pid : Int} (hscan : sscanf04x r'.inBuff = some pid) :
    r.Continues { r' with pid } := by
  have hfull : r'.inBuff.length = 4 := hread.full.mp rfl
  have hprefix : r'.inBuff <+: r'.stream.bytes := by
    rcases Nat.lt_or_eq_of_le h.short with hlt | heq
    · rw [hread.stream, ← (h.reading hlt).2, ← hread.bytes]
      exact List.prefix_append _ _
    · rw [hread.stream, ← hread.isPrefix.eq_of_length (heq.trans hfull.symm)]
      exact h.isPrefix
  refine ⟨⟨?_, ?_, hread.short, hprefix, fun hlt => absurd hfull (Nat.ne_of_lt hlt),
    fun _ => hscan⟩, hread.stream, hread.weight, fun hgreet _ => ?_, fun _ => .inl hfull⟩
  · rw [hread.stream, ← h.ending]
    exact hread.ending
  · rw [hread.stream]
    exact Nat.le_trans hread.weight h.weight
  · refine hread.less (Nat.lt_of_le_of_ne h.short fun heq => ?_) rfl
    exact hgreet ((h.pid_neg_iff heq).mp hneg)

/-- The read event that drops what comes after the greeting. -/
theorem Reader.Discarded.continues (hread : r.Discarded o r') (h : r.Valid)
    (hfull : r.inBuff.length = 4) (ho : o ≠ .close) : r.Continues r' := by
  have hwait : o = .wait := by
    cases o with
    | wait => rfl
    | close => exact absurd rfl ho
    | go => exact absurd rfl hread.ends
  have hless := hread.waits hwait
  have hending := hread.ending.trans h.ending
  have hweight := Nat.le_trans hread.weight h.weight
  obtain ⟨c, rfl⟩ : ∃ c, r' = { r with conn := c } := ⟨_, hread.keeps⟩
  have hlong : ¬r.inBuff.length < 4 := Nat.not_lt.mpr (Nat.le_of_eq hfull.symm)
  exact ⟨⟨hending, hweight, h.short, h.isPrefix, fun hlt => absurd hlt hlong, h.scanned⟩, rfl,
    hread.weight, fun _ hstays => hless.resolve_right fun hend => hstays (h.ending ▸ hend),
    fun hlt => absurd hlt hlong⟩

/-- **A read event** on a process that goes on. -/
theorem Reader.Valid.read (h : r.Valid) (hread : r.read = (o, r')) (ho : o ≠ .close) :
    r.Continues r' := by
  rw [Reader.read] at hread
  split at hread
  · next hneg =>
    have hspec := r.readPid_spec h.short
    split at hread
    · next r₁ hpid =>
      rw [hpid] at hspec
      split at hread
      · next pid hscan =>
        obtain ⟨-, rfl⟩ := Prod.mk.inj hread
        exact hspec.decodes h hneg hscan
      · obtain ⟨rfl, -⟩ := Prod.mk.inj hread
        exact absurd rfl ho
    · next o₁ r₁ hgo hpid =>
      obtain ⟨rfl, rfl⟩ := Prod.mk.inj hread
      rw [hpid] at hspec
      cases o₁ with
      | wait =>
          refine hspec.stays_valid h (Nat.lt_of_le_of_ne h.short fun hfull => ?_)
          have hlen := hspec.isPrefix.length_le
          have hshort := hspec.short
          exact nomatch hspec.full.mpr (by omega)
      | close => exact absurd rfl ho
      | go => exact absurd rfl hgo
  · next hpid =>
    have hfull : r.inBuff.length = 4 := by
      refine Nat.le_antisymm h.short (Nat.not_lt.mp fun hlt => hpid ?_)
      rw [(h.reading hlt).1]
      decide
    have hspec := r.discard_spec
    rw [hread] at hspec
    exact hspec.continues h hfull ho

/-! ### The list -/

/-- The events of a run that read from a process. -/
def Act.reads (id : Nat) : Act → Bool
  | .event id' read _ _ => read && id' = id
  | _ => false

theorem State.mem_put (h : q ∈ (s.put p).procs) : q = p ∨ q ∈ s.procs ∧ q.id ≠ p.id := by
  obtain ⟨q', hq', rfl⟩ := List.mem_map.mp h
  split
  · exact .inl rfl
  · next hne => exact .inr ⟨hq', hne⟩

theorem State.put_ids (s : State) (p : JdwpProcess) :
    (s.put p).procs.map (·.id) = s.procs.map (·.id) := by
  rw [State.put, List.map_map]
  refine List.map_congr_left fun q _ => ?_
  dsimp only [Function.comp]
  split
  · next heq => exact heq.symm
  · rfl

theorem State.mem_free (h : q ∈ (s.jdwpProcessFree p).procs) : q ∈ s.procs ∧ q.id ≠ p.id := by
  simpa [State.jdwpProcessFree] using h

/-- A write event does not change what reads. -/
theorem State.mem_writeEvent {io : WriteIo} (h : q ∈ (s.writeEvent p io).procs) :
    q.toReader = p.toReader ∧ q.id = p.id ∨ q ∈ s.procs ∧ q.id ≠ p.id := by
  rw [State.writeEvent] at h
  split at h
  · split at h
    · dsimp only at h
      split at h
      · rcases State.mem_put h with rfl | hmem
        · split <;> exact .inl ⟨rfl, rfl⟩
        · split at hmem <;> exact .inr hmem
      · exact .inr (State.mem_free h)
    · exact .inr (State.mem_free h)
  · rcases State.mem_put h with rfl | hmem
    · exact .inl ⟨rfl, rfl⟩
    · exact .inr hmem

/-- **What a step does to the reading of a process** that is in the list behind it. -/
theorem step_reader (h : step s a = some t) (hq : q ∈ t.procs) :
    (∃ p ∈ s.procs, p.id = q.id ∧
      (a.reads q.id = false ∧ q.toReader = p.toReader ∨
        ∃ o, o ≠ .close ∧ p.read = (o, q.toReader))) ∨
    ∃ conn, a = .accept conn ∧ q = { id := s.nextId, conn, stream := conn } := by
  cases a with
  | accept conn =>
      obtain rfl := Option.some.inj h
      rcases List.mem_append.mp hq with hmem | hmem
      · exact .inl ⟨q, hmem, rfl, .inl ⟨rfl, rfl⟩⟩
      · exact .inr ⟨conn, rfl, List.mem_singleton.mp hmem⟩
  | event id read write io =>
      obtain ⟨p, hfind, rfl⟩ := Option.map_eq_some_iff.mp h
      have hp := List.mem_of_find?_eq_some hfind
      obtain rfl : p.id = id := by simpa using List.find?_some hfind
      have hother : q ∈ s.procs ∧ q.id ≠ p.id → (∃ p' ∈ s.procs, p'.id = q.id ∧
          (Act.reads q.id (.event p.id read write io) = false ∧ q.toReader = p'.toReader ∨
            ∃ o, o ≠ .close ∧ p'.read = (o, q.toReader))) :=
        fun hmem => ⟨q, hmem.1, rfl, .inl ⟨by simp [Act.reads, hmem.2.symm], rfl⟩⟩
      refine .inl ?_
      rw [State.jdwpProcessEvent] at hq
      cases read with
      | false =>
          simp only [Bool.false_eq_true, if_false] at hq
          split at hq
          · rcases State.mem_writeEvent hq with ⟨hr, hid⟩ | hmem
            · exact ⟨p, hp, hid.symm, .inl ⟨rfl, hr⟩⟩
            · exact hother hmem
          · rcases State.mem_put hq with rfl | hmem
            · exact ⟨p, hp, rfl, .inl ⟨rfl, rfl⟩⟩
            · exact hother hmem
      | true =>
          rw [if_pos rfl] at hq
          split at hq
          · next r hread =>
            rcases State.mem_put hq with rfl | hmem
            · exact ⟨p, hp, rfl, .inr ⟨.wait, nofun, hread⟩⟩
            · exact hother hmem
          · exact hother (State.mem_free hq)
          · next r hread =>
            split at hq
            · rcases State.mem_writeEvent hq with ⟨hr, hid⟩ | hmem
              · exact ⟨p, hp, hid.symm, .inr ⟨.go, nofun, hr ▸ hread⟩⟩
              · exact hother hmem
            · rcases State.mem_put hq with rfl | hmem
              · exact ⟨p, hp, rfl, .inr ⟨.go, nofun, hread⟩⟩
              · exact hother hmem
  | create pid paired =>
      obtain rfl := Option.some.inj h
      refine .inl ?_
      rw [State.createJdwpConnectionFd] at hq
      split at hq
      · exact ⟨q, hq, rfl, .inl ⟨rfl, rfl⟩⟩
      · next p hfind =>
        have hp := List.mem_of_find?_eq_some hfind
        split at hq
        · exact ⟨q, hq, rfl, .inl ⟨rfl, rfl⟩⟩
        · split at hq
          · rcases State.mem_put hq with rfl | hmem
            · split <;> exact ⟨p, hp, rfl, .inl ⟨rfl, rfl⟩⟩
            · exact ⟨q, hmem.1, rfl, .inl ⟨rfl, rfl⟩⟩
          · exact ⟨q, hq, rfl, .inl ⟨rfl, rfl⟩⟩

/-- The processes are apart, and each reads as it should. -/
structure State.Reading (s : State) : Prop where
  nodup : (s.procs.map (·.id)).Nodup
  fresh : ∀ p ∈ s.procs, p.id < s.nextId
  valid : ∀ p ∈ s.procs, p.toReader.Valid

theorem State.reading_init : State.Reading {} := ⟨List.nodup_nil, nofun, nofun⟩

theorem Reader.valid_alloc (conn : Conn) : Reader.Valid { conn, stream := conn } :=
  ⟨rfl, Nat.le_refl _, Nat.zero_le _, List.nil_prefix, fun _ => ⟨rfl, rfl⟩, nofun⟩

/-- The ids of the processes, behind a step. -/
theorem step_ids (h : step s a = some t) :
    (s.nextId ≤ t.nextId ∧ (t.procs.map (·.id)).Sublist (s.procs.map (·.id))) ∨
      t.nextId = s.nextId + 1 ∧ t.procs.map (·.id) = s.procs.map (·.id) ++ [s.nextId] := by
  have hfree : ∀ s p, ((State.jdwpProcessFree s p).procs.map (·.id)).Sublist
      (s.procs.map (·.id)) := fun s p => List.filter_sublist.map _
  have hput : ∀ s p, ((State.put s p).procs.map (·.id)).Sublist (s.procs.map (·.id)) :=
    fun s p => by rw [State.put_ids]
  have hwrite : ∀ s p io, s.nextId ≤ (State.writeEvent s p io).nextId ∧
      ((State.writeEvent s p io).procs.map (·.id)).Sublist (s.procs.map (·.id)) := by
    intro s p io
    rw [State.writeEvent]
    split
    · dsimp only
      split
      · split
        · exact ⟨Nat.le_refl _, hput _ _⟩
        · exact ⟨Nat.le_refl _, hfree _ _⟩
      · exact ⟨Nat.le_refl _, hfree _ _⟩
    · exact ⟨Nat.le_refl _, hput _ _⟩
  cases a with
  | accept conn =>
      obtain rfl := Option.some.inj h
      exact .inr ⟨rfl, by simp [State.jdwpProcessAlloc]⟩
  | event id read write io =>
      obtain ⟨p, -, rfl⟩ := Option.map_eq_some_iff.mp h
      rw [State.jdwpProcessEvent]
      split
      · exact .inl ⟨Nat.le_refl _, hput _ _⟩
      · exact .inl ⟨Nat.le_refl _, hfree _ _⟩
      · split
        · exact .inl (hwrite _ _ _)
        · exact .inl ⟨Nat.le_refl _, hput _ _⟩
  | create pid paired =>
      obtain rfl := Option.some.inj h
      rw [State.createJdwpConnectionFd]
      split
      · exact .inl ⟨Nat.le_refl _, List.Sublist.refl _⟩
      · split
        · exact .inl ⟨Nat.le_refl _, List.Sublist.refl _⟩
        · split
          · exact .inl ⟨Nat.le_refl _, hput _ _⟩
          · exact .inl ⟨Nat.le_refl _, List.Sublist.refl _⟩

theorem State.Reading.step (hs : s.Reading) (h : step s a = some t) : t.Reading := by
  have hvalid : ∀ q ∈ t.procs, q.toReader.Valid := by
    intro q hq
    rcases step_reader h hq with ⟨p, hp, -, ⟨-, hr⟩ | ⟨o, ho, hread⟩⟩ | ⟨conn, -, rfl⟩
    · exact hr ▸ hs.valid p hp
    · exact ((hs.valid p hp).read hread ho).valid
    · exact Reader.valid_alloc conn
  rcases step_ids h with ⟨hnext, hsub⟩ | ⟨hnext, hids⟩
  · refine ⟨hs.nodup.sublist hsub, fun q hq => ?_, hvalid⟩
    obtain ⟨p, hp, hid⟩ := List.mem_map.mp (hsub.subset (List.mem_map_of_mem hq))
    have := hs.fresh p hp
    omega
  · have hlt : ∀ i ∈ s.procs.map (·.id), i < s.nextId := by
      simpa using hs.fresh
    refine ⟨?_, fun q hq => ?_, hvalid⟩
    · rw [hids, List.nodup_append]
      refine ⟨hs.nodup, List.nodup_singleton _, fun i hi j hj => ?_⟩
      rw [List.mem_singleton.mp hj]
      exact Nat.ne_of_lt (hlt i hi)
    · have hq' := hids ▸ List.mem_map_of_mem (f := JdwpProcess.id) hq
      rcases List.mem_append.mp hq' with hold | hnew
      · have := hlt _ hold
        omega
      · have := List.mem_singleton.mp hnew
        omega

theorem State.Reading.eq_of_id (hs : s.Reading) (hp : p ∈ s.procs) (hq : q ∈ s.procs)
    (hid : p.id = q.id) : p = q :=
  List.inj_on_of_nodup_map hs.nodup hp hq hid

theorem reading_of_run (h : as.foldlM step {} = some s) : s.Reading :=
  inv_of_foldlM (fun _ _ _ hs hstep => hs.step hstep) State.reading_init h

/-! ### What the end of a connection does -/

/-- No process gets the id of one that is gone. -/
theorem id_of_run (h : as.foldlM step s = some t) (hq : q ∈ t.procs) (hid : q.id < s.nextId) :
    ∃ p ∈ s.procs, p.id = q.id := by
  induction as generalizing s with
  | nil =>
      obtain rfl := Option.some.inj h
      exact ⟨q, hq, rfl⟩
  | cons a as ih =>
      obtain ⟨s', hstep, hrest⟩ := Option.bind_eq_some_iff.mp h
      have hback : s.nextId ≤ s'.nextId ∧ ∀ i ∈ s'.procs.map (·.id), i < s.nextId →
          i ∈ s.procs.map (·.id) := by
        rcases step_ids hstep with ⟨hnext, hsub⟩ | ⟨hnext, hids⟩
        · exact ⟨hnext, fun i hi _ => hsub.subset hi⟩
        · refine ⟨by omega, fun i hi hlt => ?_⟩
          rw [hids] at hi
          refine (List.mem_append.mp hi).resolve_right fun hnew => ?_
          exact absurd (List.mem_singleton.mp hnew) (Nat.ne_of_lt hlt)
      obtain ⟨p', hp', hid'⟩ := ih hrest (Nat.lt_of_lt_of_le hid hback.1)
      rw [← hid'] at hid ⊢
      exact List.mem_map.mp (hback.2 _ (List.mem_map_of_mem hp') hid)

/-- **Every read event uses up some of a connection** that ends, so long as the greeting is not
negative. -/
theorem reads_le_weight (hs : s.Reading) (hp : p ∈ s.procs)
    (hgreet : ¬NegativeGreeting p.stream.bytes) (hends : p.stream.ending ≠ .stays)
    (h : as.foldlM step s = some t) (hq : q ∈ t.procs) (hid : q.id = p.id) :
    as.countP (Act.reads p.id) + q.conn.weight ≤ p.conn.weight := by
  induction as generalizing s p with
  | nil =>
      obtain rfl := Option.some.inj h
      rw [hs.eq_of_id hq hp hid]
      simp
  | cons a as ih =>
      obtain ⟨s', hstep, hrest⟩ := Option.bind_eq_some_iff.mp h
      have hs' := hs.step hstep
      obtain ⟨p', hp', hid'⟩ := id_of_run hrest hq (s := s') (by
        have hlt := hs.fresh p hp
        rcases step_ids hstep with ⟨hnext, -⟩ | ⟨hnext, -⟩ <;> omega)
      have hsame : p'.id = p.id := hid'.trans hid
      rcases step_reader hstep hp' with ⟨p'', hp'', hid'', hread⟩ | ⟨conn, -, rfl⟩
      · obtain rfl := hs.eq_of_id hp'' hp (hid''.trans hsame)
        rw [List.countP_cons, ← hsame]
        rcases hread with ⟨hnone, hr⟩ | ⟨o, ho, hread⟩
        · have hrun := ih hs' hp' (hr ▸ hgreet) (hr ▸ hends) hrest hid'.symm
          rw [hr] at hrun
          simpa [hnone] using hrun
        · have hgo := (hs.valid p'' hp).read hread ho
          have hrun := ih hs' hp' (hgo.stream ▸ hgreet) (hgo.stream ▸ hends) hrest hid'.symm
          have hless := hgo.less hgreet hends
          split <;> omega
      · exact absurd (hs.fresh p hp) (by simp [← hsame])

/-! ### Debuggers that are told -/

/-- A process is in the list up to the room of the buffer given to `jdwp_process_list`: its
line is in the text, behind those of the processes before it, whenever the buffer has room for
them. -/
def Listed (s : State) (p : JdwpProcess) : Prop :=
  ∀ before after, s.procs = before ++ p :: after → ∀ room,
    (pidLines (listedPids (before.map (·.pid)) ++ [p.pid.toNat])).length < room →
    pidLines (listedPids (before.map (·.pid)) ++ [p.pid.toNat]) <+:
      jdwpProcessList (s.procs.map (·.pid)) room

/-- **A connection is identified or dropped**: in every run, its process has a pid and is
listed, up to the room of the buffer, from the fourth byte on, and if the connection ends,
there is a number of read events that the process does not outlive. -/
structure IdentifiedOrDropped (conn : Conn) : Prop where
  identified : ∀ (as : List Act) (s : State) (p : JdwpProcess), as.foldlM step {} = some s →
    p ∈ s.procs → p.stream = conn → p.inBuff.length = 4 → 0 ≤ p.pid ∧ Listed s p
  dropped : conn.ending = .eof → ∃ n, ∀ (as as' : List Act) (s t : State) (p : JdwpProcess),
    as.foldlM step {} = some s → p ∈ s.procs → p.stream = conn → as'.foldlM step s = some t →
    n ≤ as'.countP (Act.reads p.id) → ∀ q ∈ t.procs, q.id ≠ p.id

theorem listed_of_nonneg (h : 0 ≤ p.pid) : Listed s p := by
  intro before after hsplit room hroom
  have hpids : listedPids (s.procs.map (·.pid)) =
      (listedPids (before.map (·.pid)) ++ [p.pid.toNat]) ++
        listedPids (after.map (·.pid)) := by
    rw [hsplit]
    simp [listedPids, h]
  obtain ⟨ps, hps, htext⟩ := jdwpProcessListFrom_longest (s.procs.map (·.pid))
    (Nat.zero_lt_of_lt hroom)
  rw [jdwpProcessList, htext]
  have hlines := hps.longest _ (hpids ▸ List.prefix_append _ _) hroom
  obtain ⟨qs, rfl⟩ := hlines
  exact ⟨pidLines qs, List.flatMap_append.symm⟩

/-- A process whose greeting was negative decodes it again at every read event. -/
theorem Reader.Valid.read_of_neg (h : r.Valid) (hfull : r.inBuff.length = 4)
    (hneg : r.pid < 0) :
    r.read = (.go, r) := by
  have hpid : r.readPid = (.go, r) := by
    rw [Reader.readPid, dif_neg (by omega)]
  rw [Reader.read, if_pos hneg, hpid]
  simp only [h.scanned hfull]

/-- Read events take in a negative greeting. -/
theorem reaches_negative (hs : s.Reading) (hsingle : s.procs = [p]) (h : p.inBuff.length < 4)
    (hgreet : NegativeGreeting p.stream.bytes) :
    ∃ (as : List Act) (t : State) (q : JdwpProcess), as.foldlM step s = some t ∧ q ∈ t.procs ∧
      q.stream = p.stream ∧ q.inBuff.length = 4 := by
  induction hn : p.conn.weight using Nat.strongRecOn generalizing s p with
  | _ n ih =>
      have hvalid := hs.valid p (by simp [hsingle])
      obtain ⟨hpid, hbytes⟩ := hvalid.reading h
      have hneg : p.pid < 0 := by rw [hpid]; decide
      have hevent : step s (.event p.id true false {}) =
          some (s.jdwpProcessEvent p true false {}) := by
        simp [step, hsingle]
      have hput : ∀ r : Reader, (s.put { p with toReader := r }).procs =
          [{ p with toReader := r }] := fun r => by simp [State.put, hsingle]
      have hspec := p.toReader.readPid_spec hvalid.short
      generalize hread : p.readPid = res at hspec
      obtain ⟨o, r⟩ := res
      have hlen := hgreet.1
      rw [← hbytes, ← hspec.bytes] at hlen
      dsimp only at hlen hspec
      cases o with
      | wait =>
          have hgo : p.read = (.wait, r) := by
            simp [Reader.read, hneg, hread]
          have hnext : s.jdwpProcessEvent p true false {} =
            s.put { p with toReader := r } := by
            simp [State.jdwpProcessEvent, hgo]
          have hr := hvalid.read hgo nofun
          have hlt : r.inBuff.length < 4 :=
            Nat.lt_of_le_of_ne hspec.short fun hfull => nomatch hspec.full.mpr hfull
          have hless : r.conn.weight < p.conn.weight := by
            refine (hspec.waits rfl).resolve_right fun hend => ?_
            rw [hend.1, List.append_nil] at hlen
            omega
          rw [hnext] at hevent
          obtain ⟨as, t, q, hrun, hq, hstream, hfull⟩ := ih _ (hn ▸ hless) (hs.step hevent)
            (hput r) hlt (hr.stream ▸ hgreet) rfl
          exact ⟨_ :: as, t, q, Option.bind_eq_some_iff.mpr ⟨_, hevent, hrun⟩, hq,
            hstream.trans hr.stream, hfull⟩
      | close =>
          have hlt : r.inBuff.length ≠ 4 := fun hfull => nomatch hspec.full.mpr hfull
          have hshort := hspec.short
          rw [hspec.ended rfl, List.append_nil] at hlen
          omega
      | go =>
          have hfull : r.inBuff.length = 4 := hspec.full.mp rfl
          have htake : p.stream.bytes.take 4 = r.inBuff := by
            rw [← hbytes, ← hspec.bytes, ← hfull, List.take_left']
            rfl
          obtain ⟨pid, -, hscan⟩ := (sscanf04x_neg_iff (Nat.le_of_eq hfull)).mpr
            (htake ▸ hgreet.2)
          have hgo : p.read = (.go, { r with pid }) := by
            simp [Reader.read, hneg, hread, hscan]
          have hnext : s.jdwpProcessEvent p true false {} =
              s.put { p with toReader := { r with pid } } := by
            simp [State.jdwpProcessEvent, hgo]
          rw [hnext] at hevent
          exact ⟨[_], _, _, Option.bind_eq_some_iff.mpr ⟨_, hevent, rfl⟩,
            by rw [hput]; exact List.mem_singleton_self _, hspec.stream, hfull⟩

/-- A negative greeting is neither. -/
theorem not_identified_of_negative {conn : Conn} (h : NegativeGreeting conn.bytes) :
    ¬IdentifiedOrDropped conn := by
  intro hconn
  have hstart : step {} (.accept conn) = some (State.jdwpProcessAlloc {} conn) := rfl
  obtain ⟨as, t, q, hrun, hq, hstream, hfull⟩ := reaches_negative
    (State.reading_init.step hstart) rfl (by decide : 0 < 4) h
  have hrun' : (Act.accept conn :: as).foldlM step {} = some t := by
    rw [List.foldlM_cons, hstart]
    exact hrun
  have hneg := (((reading_of_run hrun').valid q hq).pid_neg_iff hfull).mpr (hstream ▸ h)
  have hpid := (hconn.identified _ t q hrun' hq hstream hfull).1
  omega

/-- **The connections that are identified or dropped** are those that do not greet with a
negative number. -/
theorem identified_or_dropped_iff (conn : Conn) :
    IdentifiedOrDropped conn ↔ ¬NegativeGreeting conn.bytes := by
  refine ⟨fun hconn h => not_identified_of_negative h hconn, fun h => ⟨?_, fun heof => ?_⟩⟩
  · rintro as s p hrun hp rfl hfull
    have hpid : 0 ≤ p.pid :=
      Int.not_lt.mp fun hneg =>
        h ((((reading_of_run hrun).valid p hp).pid_neg_iff hfull).mp hneg)
    exact ⟨hpid, listed_of_nonneg hpid⟩
  · refine ⟨conn.weight + 1, ?_⟩
    rintro as as' s t p hrun hp rfl hrun' hcount q hq hid
    have hs := reading_of_run hrun
    have hle := reads_le_weight hs hp h (heof ▸ nofun) hrun' hq hid
    have hweight := (hs.valid p hp).weight
    omega

/-- `-001` greets as the process -1, and the connection ends after it. -/
theorem identified_or_dropped_fails :
    ¬IdentifiedOrDropped { arrivals := [.data 45 [48, 48, 49]], ending := .eof } :=
  not_identified_of_negative ⟨by decide, [], [48, 48, 49], 1, by decide, nofun, by decide,
    by decide⟩

end Adbd.Jdwp
