import Adbd.JdwpGreeting

/-!
# The Descriptors of a JDWP Process

The descriptors for a process are queued in `out_fds`. A write event sends the first, closes
it, shifts the array, restores the flags of the socket, and counts the descriptor off. If the
flags cannot be restored, the destructor gets the shifted array with the count as it was, in
which the last descriptor is twice, or the one that was sent is again. This is the one way in
which a descriptor is closed twice.

## Main definitions

* `Orderly`: the queues are bounded, sent in order and closed once.
* `FailsRestore`: the write event that cannot restore the flags.

## Main results

* `JdwpProcess.shift_outQueue`: what the array holds behind the shift.
* `State.Ledger.step`: a descriptor is in the queue of one process or has been closed.
* `jdwp_queue_orderly_iff`: the runs whose queues are orderly.
-/

namespace Adbd.Jdwp

open Runs

variable {s t : State} {p q : JdwpProcess} {r : Reader} {a : Act} {as : List Act} {i fd : Nat}

/-- The descriptors that were queued for a process. -/
def State.queuedTo (s : State) (i : Nat) : List Nat :=
  (s.queued.filter fun d => d.1 = i).map (·.2)

/-- The descriptors that were sent to a process. -/
def State.sentTo (s : State) (i : Nat) : List Nat :=
  (s.sent.filter fun d => d.1 = i).map (·.2)

/-- **The queues are orderly**: they are bounded, interest in writing is on for those with
descriptors in them, what is sent to a process is what was queued for it, in order, and a
descriptor has been closed once if it was sent or its process freed, and else not at all. -/
structure Orderly (s : State) : Prop where
  bounded : ∀ p ∈ s.procs, p.outCount ≤ maxOutFds
  interest : ∀ p ∈ s.procs, p.writing = true ↔ 0 < p.outCount
  order : ∀ i, s.sentTo i <+: s.queuedTo i
  once : ∀ i fd, (i, fd) ∈ s.queued → (i, fd) ∈ s.sent ∨ (∀ p ∈ s.procs, p.id ≠ i) →
    s.closed.count fd = 1
  waits : ∀ i fd, (i, fd) ∈ s.queued → (i, fd) ∉ s.sent → (∃ p ∈ s.procs, p.id = i) →
    s.closed.count fd = 0

/-- A write event that sends a descriptor and then cannot restore the flags of the socket. -/
def FailsRestore (s : State) (a : Act) : Prop :=
  ∃ id read io p, a = .event id read true io ∧ s.procs.find? (fun p => p.id = id) = some p ∧
    (read = true → p.read.1 = .go) ∧ 0 < p.outCount ∧
    io.getfl = true ∧ io.setfl = true ∧ io.sendmsg = true ∧ io.restore = false

/-! ### The array -/

/-- The first of the queue, and the rest of it in the shifted array. -/
theorem JdwpProcess.outQueue_eq_cons (h : 0 < p.outCount) :
    p.outQueue = p.outFds 0 :: JdwpProcess.outQueue
      { p.shift with outCount := p.outCount - 1 } := by
  obtain ⟨n, hn⟩ := Nat.exists_eq_add_of_lt h
  rw [Nat.zero_add] at hn
  simp only [JdwpProcess.outQueue, JdwpProcess.shift, hn, Nat.add_sub_cancel,
    List.range_succ_eq_map, List.map_cons, List.map_map]
  congr 1
  refine List.map_congr_left fun k hk => ?_
  simp [List.mem_range.mp hk]

/-- **The shifted array before the count goes down**: the queue is there with its last
descriptor twice, apart from the one that was sent. -/
theorem JdwpProcess.shift_outQueue (h : 0 < p.outCount) :
    p.outFds 0 :: p.shift.outQueue = p.outQueue ++ [p.outFds (p.outCount - 1)] := by
  obtain ⟨n, hn⟩ := Nat.exists_eq_add_of_lt h
  rw [Nat.zero_add] at hn
  have hlast : p.shift.outQueue =
      JdwpProcess.outQueue { p.shift with outCount := p.outCount - 1 } ++ [p.outFds n] := by
    simp [JdwpProcess.outQueue, JdwpProcess.shift, hn, List.range_succ]
  rw [hlast, p.outQueue_eq_cons h, hn]
  rfl

/-! ### The ledger -/

/-- Where the descriptors are. -/
structure State.Ledger (s : State) : Prop where
  bounded : ∀ p ∈ s.procs, p.outCount ≤ maxOutFds
  interest : ∀ p ∈ s.procs, p.writing = true ↔ 0 < p.outCount
  order : ∀ i, s.sentTo i <+: s.queuedTo i
  rest : ∀ p ∈ s.procs, s.queuedTo p.id = s.sentTo p.id ++ p.outQueue
  apart : (s.queued.map (·.2)).Nodup
  fresh : ∀ d ∈ s.queued, d.1 < s.nextId ∧ d.2 < s.nextFd
  kept : (s.queued.map (·.2)).Perm (s.closed ++ s.procs.flatMap (·.outQueue))

theorem State.ledger_init : State.Ledger {} :=
  ⟨nofun, nofun, fun _ => List.prefix_refl _, nofun, List.nodup_nil, nofun, .refl _⟩

theorem State.mem_queuedTo : fd ∈ s.queuedTo i ↔ (i, fd) ∈ s.queued := by
  simp [State.queuedTo]

theorem State.mem_sentTo : fd ∈ s.sentTo i ↔ (i, fd) ∈ s.sent := by
  simp [State.sentTo]

/-- The list around one of its processes. -/
theorem State.Reading.split (hs : s.Reading) (hp : p ∈ s.procs) :
    ∃ l l', s.procs = l ++ p :: l' ∧ (∀ q ∈ l ++ l', q.id ≠ p.id) ∧
      ∀ p' : JdwpProcess, p'.id = p.id → (s.put p').procs = l ++ p' :: l' ∧
        (s.jdwpProcessFree p').procs = l ++ l' := by
  obtain ⟨l, l', hsplit⟩ := List.append_of_mem hp
  have hnodup := hs.nodup
  rw [hsplit, List.map_append, List.map_cons] at hnodup
  have hother : ∀ q ∈ l ++ l', q.id ≠ p.id := by
    intro q hq hid
    have hmem : p.id ∈ (l ++ l').map (·.id) := hid ▸ List.mem_map_of_mem hq
    rw [List.map_append] at hmem
    exact (List.nodup_cons.mp (List.nodup_middle.mp hnodup)).1 hmem
  refine ⟨l, l', hsplit, hother, fun p' hid => ⟨?_, ?_⟩⟩
  · have hsame : ∀ m : List JdwpProcess, (∀ q ∈ m, q.id ≠ p.id) →
        m.map (fun q => if q.id = p'.id then p' else q) = m := by
      intro m hm
      refine (List.map_congr_left fun q hq => ?_).trans (List.map_id m)
      rw [if_neg (hid ▸ hm q hq)]
      rfl
    rw [State.put, hsplit, List.map_append, List.map_cons, if_pos hid.symm,
      hsame l fun q hq => hother q (List.mem_append_left _ hq),
      hsame l' fun q hq => hother q (List.mem_append_right _ hq)]
  · have hsame : ∀ m : List JdwpProcess, (∀ q ∈ m, q.id ≠ p.id) →
        m.filter (fun q => q.id ≠ p'.id) = m := by
      intro m hm
      exact List.filter_eq_self.mpr fun q hq => by simpa [hid] using hm q hq
    rw [State.jdwpProcessFree, hsplit, List.filter_append, List.filter_cons,
      hsame l fun q hq => hother q (List.mem_append_left _ hq),
      hsame l' fun q hq => hother q (List.mem_append_right _ hq)]
    simp [hid]

/-- A step that changes one process, and the logs for it. -/
theorem State.Ledger.replace (hl : s.Ledger) (hs : s.Reading) (hp : p ∈ s.procs)
    (p' : JdwpProcess) (hid : p'.id = p.id) (hprocs : t.procs = (s.put p').procs)
    (hbounded : p'.outCount ≤ maxOutFds) (hinterest : p'.writing = true ↔ 0 < p'.outCount)
    (hrest : t.queuedTo p.id = t.sentTo p.id ++ p'.outQueue)
    (hother : ∀ i ≠ p.id, t.queuedTo i = s.queuedTo i ∧ t.sentTo i = s.sentTo i)
    (hapart : (t.queued.map (·.2)).Nodup)
    (hfresh : ∀ d ∈ t.queued, d.1 < t.nextId ∧ d.2 < t.nextFd)
    (hkept : ∀ l l', s.procs = l ++ p :: l' →
      (t.queued.map (·.2)).Perm (t.closed ++ (l ++ p' :: l').flatMap (·.outQueue))) :
    t.Ledger := by
  obtain ⟨l, l', hsplit, hne, hput⟩ := hs.split hp
  rw [(hput p' hid).1] at hprocs
  have hold : ∀ q ∈ t.procs, q = p' ∨ q ∈ s.procs ∧ q.id ≠ p.id := by
    intro q hq
    rw [hprocs] at hq
    rcases List.mem_append.mp hq with hq | hq
    · exact .inr ⟨hsplit ▸ List.mem_append_left _ hq, hne q (List.mem_append_left _ hq)⟩
    · rcases List.mem_cons.mp hq with rfl | hq
      · exact .inl rfl
      · exact .inr ⟨hsplit ▸ List.mem_append_right _ (List.mem_cons_of_mem _ hq),
          hne q (List.mem_append_right _ hq)⟩
  refine ⟨fun q hq => ?_, fun q hq => ?_, fun i => ?_, fun q hq => ?_, hapart, hfresh,
    hprocs ▸ hkept l l' hsplit⟩
  · rcases hold q hq with rfl | ⟨hq, -⟩
    · exact hbounded
    · exact hl.bounded q hq
  · rcases hold q hq with rfl | ⟨hq, -⟩
    · exact hinterest
    · exact hl.interest q hq
  · by_cases hi : i = p.id
    · rw [hi, hrest]
      exact List.prefix_append _ _
    · rw [(hother i hi).1, (hother i hi).2]
      exact hl.order i
  · rcases hold q hq with rfl | ⟨hq, hi⟩
    · rw [hid]
      exact hrest
    · rw [(hother _ hi).1, (hother _ hi).2]
      exact hl.rest q hq

/-- A read event leaves the queue alone. -/
theorem State.Ledger.put (hl : s.Ledger) (hs : s.Reading) (hp : p ∈ s.procs) :
    (s.put { p with toReader := r }).Ledger :=
  hl.replace hs hp { p with toReader := r } rfl rfl (hl.bounded p hp) (hl.interest p hp)
    (hl.rest p hp) (fun _ _ => ⟨rfl, rfl⟩) hl.apart hl.fresh fun l l' hsplit => by
      have hkept := hl.kept
      rw [hsplit, List.flatMap_append, List.flatMap_cons] at hkept
      rw [List.flatMap_append, List.flatMap_cons]
      exact hkept

/-- A new process has nothing in its queue. -/
theorem State.Ledger.alloc (hl : s.Ledger) (conn : Conn) :
    (s.jdwpProcessAlloc conn).Ledger := by
  have hnew : ∀ q ∈ (s.jdwpProcessAlloc conn).procs,
      q ∈ s.procs ∨ q = { id := s.nextId, conn, stream := conn } := by
    simp [State.jdwpProcessAlloc]
  have hnone : s.queuedTo s.nextId = [] := by
    refine List.eq_nil_iff_forall_not_mem.mpr fun fd hfd => ?_
    exact absurd (hl.fresh _ (State.mem_queuedTo.mp hfd)).1 (Nat.lt_irrefl _)
  refine ⟨fun q hq => ?_, fun q hq => ?_, hl.order, fun q hq => ?_, hl.apart,
    fun d hd => ⟨Nat.lt_succ_of_lt (hl.fresh d hd).1, (hl.fresh d hd).2⟩, ?_⟩
  · rcases hnew q hq with hq | rfl
    · exact hl.bounded q hq
    · exact Nat.zero_le _
  · rcases hnew q hq with hq | rfl
    · exact hl.interest q hq
    · exact iff_of_false Bool.false_ne_true (Nat.lt_irrefl 0)
  · rcases hnew q hq with hq | rfl
    · exact hl.rest q hq
    · have hsent : s.sentTo s.nextId = [] :=
        List.prefix_nil.mp (hnone ▸ hl.order s.nextId)
      exact hnone.trans (List.append_eq_nil_iff.mpr ⟨hsent, rfl⟩).symm
  · simpa [State.jdwpProcessAlloc, JdwpProcess.outQueue] using hl.kept

/-- The destructor closes what is in the queue. -/
theorem State.Ledger.free (hl : s.Ledger) (hs : s.Reading) (hp : p ∈ s.procs) :
    (s.jdwpProcessFree { p with toReader := r }).Ledger := by
  obtain ⟨l, l', hsplit, -, hput⟩ := hs.split hp
  have hprocs := (hput { p with toReader := r } rfl).2
  have hold : ∀ q ∈ (s.jdwpProcessFree { p with toReader := r }).procs, q ∈ s.procs :=
    fun q hq => (State.mem_free hq).1
  refine ⟨fun q hq => hl.bounded q (hold q hq), fun q hq => hl.interest q (hold q hq),
    hl.order, fun q hq => hl.rest q (hold q hq), hl.apart, hl.fresh, ?_⟩
  have hkept := hl.kept
  rw [hsplit, List.flatMap_append, List.flatMap_cons] at hkept
  rw [hprocs, List.flatMap_append]
  refine hkept.trans ?_
  simp only [State.jdwpProcessFree, JdwpProcess.outQueue, List.append_assoc]
  exact (List.perm_append_comm_assoc ..).append_left _

/-- A descriptor is sent, closed and taken off the queue. -/
theorem State.Ledger.send (hl : s.Ledger) (hs : s.Reading) (hp : p ∈ s.procs)
    {p' : JdwpProcess} (hid : p'.id = p.id) (hqueue : p.outQueue = fd :: p'.outQueue)
    (hcount : p'.outCount = p.outCount - 1) (hpos : 0 < p.outCount)
    (hwriting : p'.writing = if p'.outCount = 0 then false else p.writing) :
    (State.put { s with
      sent := s.sent ++ [(p.id, fd)], closed := s.closed ++ [fd] } p').Ledger := by
  have hbounded := hl.bounded p hp
  have hinterest := hl.interest p hp
  have hrest := hl.rest p hp
  have hkept := hl.kept
  refine hl.replace hs hp p' hid rfl (by omega) ?_ ?_ (fun i hi => ⟨rfl, ?_⟩) hl.apart hl.fresh
    fun l l' hsplit => ?_
  · rw [hwriting]
    split
    · exact iff_of_false nofun (by omega)
    · exact hinterest.trans (by omega)
  · simp only [State.queuedTo, State.sentTo, State.put] at hrest ⊢
    rw [hrest, hqueue]
    simp
  · simp [State.sentTo, State.put, Ne.symm hi]
  · rw [hsplit, List.flatMap_append, List.flatMap_cons, hqueue] at hkept
    refine hkept.trans ?_
    simp only [State.put, List.flatMap_append, List.flatMap_cons, List.append_assoc,
      List.cons_append, List.nil_append]
    exact List.Perm.append_left _ List.perm_middle

/-- A descriptor is queued. -/
theorem State.Ledger.queue (hl : s.Ledger) (hs : s.Reading) (hp : p ∈ s.procs)
    {p' : JdwpProcess} (hid : p'.id = p.id) (hqueue : p'.outQueue = p.outQueue ++ [s.nextFd])
    (hcount : p'.outCount = p.outCount + 1) (hroom : p.outCount < maxOutFds)
    (hwriting : p'.writing = if p'.outCount = 1 then true else p.writing) :
    State.Ledger { s.put p' with
      nextFd := s.nextFd + 1, queued := s.queued ++ [(p.id, s.nextFd)] } := by
  have hinterest := hl.interest p hp
  have hrest := hl.rest p hp
  have hkept := hl.kept.append_right [s.nextFd]
  refine hl.replace hs hp p' hid rfl (by omega) ?_ ?_ (fun i hi => ⟨?_, rfl⟩) ?_ ?_
    fun l l' hsplit => ?_
  · rw [hwriting]
    split
    · exact iff_of_true rfl (by omega)
    · exact hinterest.trans (by omega)
  · simp only [State.queuedTo, State.sentTo, State.put] at hrest ⊢
    rw [hqueue, List.filter_append, List.map_append, hrest]
    simp
  · simp [State.queuedTo, Ne.symm hi]
  · rw [List.map_append, List.nodup_append]
    refine ⟨hl.apart, List.nodup_singleton _, fun fd hfd fd' hfd' => ?_⟩
    obtain ⟨d, hd, rfl⟩ := List.mem_map.mp hfd
    rw [List.mem_singleton.mp hfd']
    exact Nat.ne_of_lt (hl.fresh d hd).2
  · intro d hd
    rcases List.mem_append.mp hd with hd | hd
    · exact ⟨(hl.fresh d hd).1, Nat.lt_succ_of_lt (hl.fresh d hd).2⟩
    · rw [List.mem_singleton.mp hd]
      exact ⟨hs.fresh p hp, Nat.lt_succ_self _⟩
  · rw [hsplit, List.flatMap_append, List.flatMap_cons] at hkept
    rw [List.map_append]
    refine hkept.trans ?_
    rw [List.flatMap_append, List.flatMap_cons, hqueue]
    simp only [State.put, List.append_assoc]
    exact List.Perm.append_left _ (List.Perm.append_left _ (List.Perm.append_left _
      List.perm_append_comm))

/-- A write event that does not fail to restore the flags. -/
theorem State.Ledger.writeEvent {io : WriteIo} (hl : s.Ledger) (hs : s.Reading)
    (hp : p ∈ s.procs)
    (hio : 0 < p.outCount → io.getfl = true → io.setfl = true → io.sendmsg = true →
      io.restore = true) : (s.writeEvent { p with toReader := r } io).Ledger := by
  rw [State.writeEvent]
  split
  · next hpos =>
    split
    · next hok =>
      obtain ⟨⟨hget, hset⟩, hsend⟩ : (io.getfl = true ∧ io.setfl = true) ∧
        io.sendmsg = true := by
        simpa using hok
      dsimp only
      rw [if_pos (hio hpos hget hset hsend)]
      split
      · next hzero =>
        exact hl.send hs hp rfl (p.outQueue_eq_cons hpos) rfl hpos (if_pos hzero).symm
      · next hzero =>
        exact hl.send hs hp rfl (p.outQueue_eq_cons hpos) rfl hpos (if_neg hzero).symm
    · exact hl.free hs hp
  · exact hl.put hs hp

/-- **A step keeps the ledger**, unless it fails to restore the flags of a socket. -/
theorem State.Ledger.step (hl : s.Ledger) (hs : s.Reading) (ha : ¬FailsRestore s a)
    (h : step s a = some t) : t.Ledger := by
  cases a with
  | accept conn =>
      obtain rfl := Option.some.inj h
      exact hl.alloc conn
  | event id read write io =>
      obtain ⟨p, hfind, rfl⟩ := Option.map_eq_some_iff.mp h
      have hp := List.mem_of_find?_eq_some hfind
      rw [State.jdwpProcessEvent]
      split
      · exact hl.put hs hp
      · exact hl.free hs hp
      · next r hread =>
        split
        · next hwrite =>
          refine hl.writeEvent hs hp fun hpos hget hset hsend => ?_
          by_contra hrestore
          refine ha ⟨id, read, io, p, by rw [hwrite], hfind, fun hr => ?_, hpos, hget,
            hset, hsend, by simpa using hrestore⟩
          rw [if_pos hr] at hread
          rw [hread]
        · exact hl.put hs hp
  | create pid paired =>
      obtain rfl := Option.some.inj h
      rw [State.createJdwpConnectionFd]
      split
      · exact hl
      · next p hfind =>
        have hp := List.mem_of_find?_eq_some hfind
        split
        · exact hl
        · next hroom =>
          split
          · have hqueue : JdwpProcess.outQueue { p with
                outFds := fun n => if n = p.outCount then s.nextFd else p.outFds n
                outCount := p.outCount + 1 } = p.outQueue ++ [s.nextFd] := by
              simp only [JdwpProcess.outQueue]
              rw [List.range_succ, List.map_append, List.map_singleton, if_pos rfl]
              congr 1
              refine List.map_congr_left fun n hn => ?_
              rw [if_neg (Nat.ne_of_lt (List.mem_range.mp hn))]
            dsimp only
            split
            · next hone =>
              exact hl.queue hs hp rfl hqueue rfl (Nat.not_le.mp hroom) (if_pos hone).symm
            · next hone =>
              exact hl.queue hs hp rfl hqueue rfl (Nat.not_le.mp hroom) (if_neg hone).symm
          · exact hl

/-! ### Descriptors of a run -/

/-- A queued descriptor is in the queue of its process or has been closed, and that once. -/
theorem State.Ledger.count_closed (hl : s.Ledger) (hd : (i, fd) ∈ s.queued) :
    s.closed.count fd + (s.procs.flatMap (·.outQueue)).count fd = 1 := by
  rw [← List.count_append, ← hl.kept.count_eq]
  exact List.count_eq_one_of_mem hl.apart (List.mem_map.mpr ⟨_, hd, rfl⟩)

/-- What is in the queue of a process was queued for it and has not been sent. -/
theorem State.Ledger.waiting (hl : s.Ledger) (hp : p ∈ s.procs) (hfd : fd ∈ p.outQueue) :
    (p.id, fd) ∈ s.queued ∧ (p.id, fd) ∉ s.sent := by
  have hrest := hl.rest p hp
  have hmem : fd ∈ s.queuedTo p.id := hrest ▸ List.mem_append_right _ hfd
  refine ⟨State.mem_queuedTo.mp hmem, fun hsent => ?_⟩
  have hnodup : (s.queuedTo p.id).Nodup := hl.apart.sublist (List.filter_sublist.map _)
  rw [hrest] at hnodup
  exact (List.nodup_append.mp hnodup).2.2 fd (State.mem_sentTo.mpr hsent) fd hfd rfl

theorem State.Ledger.orderly (hl : s.Ledger) : Orderly s := by
  refine ⟨hl.bounded, hl.interest, hl.order, fun i fd hd hdone => ?_,
    fun i fd hd hsent hlive => ?_⟩
  · have hcount := hl.count_closed hd
    have hnone : (s.procs.flatMap (·.outQueue)).count fd = 0 := by
      refine List.count_eq_zero.mpr fun hmem => ?_
      obtain ⟨p, hp, hfd⟩ := List.mem_flatMap.mp hmem
      obtain ⟨hq, hns⟩ := hl.waiting hp hfd
      have hid : i = p.id :=
        congrArg Prod.fst (List.inj_on_of_nodup_map hl.apart hd hq rfl)
      rcases hdone with hsent | hfreed
      · exact hns (hid ▸ hsent)
      · exact hfreed p hp hid.symm
    omega
  · obtain ⟨p, hp, rfl⟩ := hlive
    have hmem := State.mem_queuedTo.mpr hd
    rw [hl.rest p hp] at hmem
    have hfd := (List.mem_append.mp hmem).resolve_left fun h => hsent (State.mem_sentTo.mp h)
    have hpos : 0 < (s.procs.flatMap (·.outQueue)).count fd :=
      List.count_pos_iff.mpr (List.mem_flatMap.mpr ⟨p, hp, hfd⟩)
    have hcount := hl.count_closed hd
    omega

/-- **Where the flags cannot be restored**, the destructor closes a descriptor again. -/
theorem not_orderly_of_failsRestore (hl : s.Ledger) (ha : FailsRestore s a)
    (h : step s a = some t) : ¬Orderly t := by
  obtain ⟨id, read, io, p, rfl, hfind, hread, hpos, hget, hset, hsend, hrestore⟩ := ha
  have hp := List.mem_of_find?_eq_some hfind
  obtain ⟨r, hr⟩ : ∃ r, (if read then p.read else (.go, p.toReader)) = (.go, r) := by
    cases read with
    | true => exact ⟨p.read.2, Prod.ext (hread rfl) rfl⟩
    | false => exact ⟨p.toReader, rfl⟩
  have ht : t = State.jdwpProcessFree { s with
      sent := s.sent ++ [(p.id, p.outFds 0)], closed := s.closed ++ [p.outFds 0] }
        { p with toReader := r, outFds := p.shift.outFds } := by
    rw [step, hfind, Option.map_some] at h
    rw [← Option.some.inj h, State.jdwpProcessEvent, hr]
    dsimp only
    rw [if_pos rfl, State.writeEvent, if_pos hpos]
    simp only [hget, hset, hsend, hrestore, Bool.and_true, if_true, Bool.false_eq_true,
      if_false]
    rfl
  set last := p.outFds (p.outCount - 1)
  have hlast : last ∈ p.outQueue :=
    List.mem_map_of_mem (List.mem_range.mpr (Nat.sub_lt hpos Nat.one_pos))
  have hclosed : t.closed = s.closed ++ (p.outQueue ++ [last]) := by
    rw [ht, ← p.shift_outQueue hpos]
    simp [State.jdwpProcessFree, JdwpProcess.outQueue, JdwpProcess.shift]
  intro horderly
  have honce := horderly.once p.id last
    (by rw [ht]; exact (hl.waiting hp hlast).1)
    (.inr fun q hq => by rw [ht] at hq; exact (State.mem_free hq).2)
  have hcount := List.count_pos_iff.mpr hlast
  rw [hclosed, List.count_append, List.count_append, List.count_singleton_self] at honce
  omega

/-- **The queues are orderly in exactly the runs in which the flags of a socket can be restored
whenever a descriptor was sent.** -/
theorem jdwp_queue_orderly_iff (as : List Act) :
    Along step Orderly {} as ↔ AlongSteps step (fun s a => ¬FailsRestore s a) {} as :=
  along_iff_of_invariant (I := fun s => s.Reading ∧ s.Ledger) (fun _ hs => hs.2.orderly)
    (fun _ _ _ hs _ ha h => ⟨hs.1.step h, hs.2.step hs.1 ha h⟩)
    (fun _ _ _ hs _ ha h => not_orderly_of_failsRestore hs.2 (not_not.mp ha) h)
    ⟨State.reading_init, State.ledger_init⟩ alongSteps_true

/-- A client that says it is the process 1, and stays. -/
def processOne : Conn := { arrivals := [.data 48 [48, 48, 49]] }

/-- Its greeting is read at once. -/
theorem read_processOne : Reader.read { conn := processOne, stream := processOne } =
    (.go, { pid := 1, inBuff := [48, 48, 48, 49], conn := {}, stream := processOne }) := by
  have hscan : sscanf04x [48, 48, 48, 49] = some 1 := by decide
  have hpid : Reader.readPid { conn := processOne, stream := processOne } =
      (.go, { inBuff := [48, 48, 48, 49], conn := {}, stream := processOne }) := by
    rw [Reader.readPid_got (by decide) (by rfl), Reader.readPid, dif_neg (by decide)]
    rfl
  rw [Reader.read, if_pos (by decide), hpid]
  simp only [hscan]

/-- A descriptor for it that is sent is closed twice, where the flags cannot be restored. -/
theorem jdwp_queue_orderly_fails :
    ¬Along step Orderly {} [.accept processOne, .event 0 true false {}, .create 1 true,
      .event 0 false true { restore := false }] := by
  have hrun : [.accept processOne, .event 0 true false {}, .create 1 true,
      .event 0 false true { restore := false }].foldlM step {} =
      some { nextId := 1, nextFd := 1, queued := [(0, 0)], sent := [(0, 0)],
             closed := [0, 0] } := by
    simp [step, State.jdwpProcessAlloc, State.jdwpProcessEvent, read_processOne, State.put,
      State.createJdwpConnectionFd, maxOutFds, State.writeEvent, State.jdwpProcessFree,
      JdwpProcess.outQueue, JdwpProcess.shift]
  intro h
  have honce :=
    (h.finish hrun).once 0 0 (by decide) (.inr fun p hp => absurd hp List.not_mem_nil)
  exact absurd honce (by decide)

end Adbd.Jdwp
