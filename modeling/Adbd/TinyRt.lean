import Adbd.TinySched

/-!
# The Queues of the Real-Time Class

The bitmap, the hundred lists, the mark of each task, the counters and the running minimum
`highest_prio.curr` of the tiny real-time class say the same thing in every reachable state.
`RtQueues` is that agreement, for given contents of the lists; every callback has one lemma
that says what it does to the contents.

## Main definitions

* `Lowest q k`: `k` is the first priority with a task, or the last priority if there is none.
* `RtQueues`: the state of the class describes given contents of its queues.
* `rtStep`, `RtReachable`: runs of the class on its own, with the priority of a task changed
  only while it is dequeued.

## Main results

* `RtQueues.enqueue`, `RtQueues.dequeue`, `RtQueues.yield`: the callbacks on the contents of
  the queues.
* `RtQueues.pick_none`, `RtQueues.pick_some`: what is picked.
* `rt_runqueue_consistent`: the agreement in every reachable state.
-/

namespace Adbd.Sched

open ListHead

variable {rq : Rq} {q : Fin MAX_RT_PRIO → List Pid} {p : Pid} {f : Flags} {i : Fin MAX_RT_PRIO}

/-- The first priority with a queued task, or the last priority if there is none. -/
def Lowest (q : Fin MAX_RT_PRIO → List Pid) (k : Nat) : Prop :=
  (∃ i : Fin MAX_RT_PRIO, k = i ∧ q i ≠ [] ∧ ∀ j < i, q j = []) ∨
    k = MAX_RT_PRIO - 1 ∧ ∀ i, q i = []

/-- The lists, bitmap, marks, counters and minimum of the class describe the contents `q`. -/
structure RtQueues (rq : Rq) (q : Fin MAX_RT_PRIO → List Pid) : Prop where
  rings : Rings rq.rt.links q
  bitmap : ∀ i : Fin MAX_RT_PRIO, rq.rt.bitmap i = true ↔ q i ≠ []
  delimiter : rq.rt.bitmap MAX_RT_PRIO = true
  onRq : ∀ p, (rq.tasks p).rtOnRq = true ↔ ∃ i, p ∈ q i
  prio : ∀ {i p}, p ∈ q i → (rq.tasks p).prio = (i : Nat)
  rtNrRunning : rq.rt.rtNrRunning = total q
  rtQueued : rq.rt.rtQueued = true ↔ 0 < total q
  highest : Lowest q rq.rt.highestPrioCurr

/-- The list of a priority in range. -/
theorem rtQueue_eq {prio : Nat} (h : prio < MAX_RT_PRIO) :
    Rq.rtQueue prio = .head ⟨prio, h⟩ := by
  have : Fin.ofNat MAX_RT_PRIO prio = ⟨prio, h⟩ := Fin.ext (Nat.mod_eq_of_lt h)
  rw [Rq.rtQueue, this]

/-- The search `dequeue_task_rt` makes finds the new minimum. -/
theorem lowest_findFirstBit {bm : Nat → Bool}
    (h : ∀ i : Fin MAX_RT_PRIO, bm i = true ↔ q i ≠ []) :
    Lowest q (if findFirstBit bm MAX_RT_PRIO < MAX_RT_PRIO then findFirstBit bm MAX_RT_PRIO
      else MAX_RT_PRIO - 1) := by
  obtain ⟨hsize, hclear⟩ | ⟨hlt, hset, hmin⟩ := findFirstBit_cases bm MAX_RT_PRIO
  · rw [if_neg (by omega)]
    refine .inr ⟨rfl, fun i => ?_⟩
    by_contra hne
    have := (h i).mpr hne
    rw [hclear i i.isLt] at this
    cases this
  · rw [if_pos hlt]
    refine .inl ⟨⟨_, hlt⟩, rfl, (h ⟨_, hlt⟩).mp hset, fun j hj => ?_⟩
    by_contra hne
    have := (h j).mpr hne
    rw [hmin j hj] at this
    cases this

namespace RtQueues

/-- The priority of a queued task is in range. -/
theorem prio_lt (h : RtQueues rq q) (hp : (rq.tasks p).rtOnRq = true) :
    (rq.tasks p).prio < MAX_RT_PRIO := by
  obtain ⟨i, hm⟩ := (h.onRq p).mp hp
  exact h.prio hm ▸ i.isLt

/-- A queued task is in the list of its priority. -/
theorem mem (h : RtQueues rq q) (hp : (rq.tasks p).rtOnRq = true)
    (hlt : (rq.tasks p).prio < MAX_RT_PRIO) : p ∈ q ⟨(rq.tasks p).prio, hlt⟩ := by
  obtain ⟨i, hm⟩ := (h.onRq p).mp hp
  have : (⟨(rq.tasks p).prio, hlt⟩ : Fin MAX_RT_PRIO) = i := Fin.ext (h.prio hm)
  rwa [this]

/-- A task is on no list if it is not marked queued. -/
theorem not_mem (h : RtQueues rq q) (hp : (rq.tasks p).rtOnRq = false) (i : Fin MAX_RT_PRIO) :
    p ∉ q i := fun hm => by
  have := (h.onRq p).mpr ⟨i, hm⟩
  rw [hp] at this
  cases this

/-- The agreement depends on the fields of the class only. -/
theorem congr {rq' : Rq} (h : RtQueues rq q) (hrt : rq'.rt = rq.rt)
    (hon : ∀ p, (rq'.tasks p).rtOnRq = (rq.tasks p).rtOnRq)
    (hprio : ∀ i, ∀ p ∈ q i, (rq'.tasks p).prio = (rq.tasks p).prio) : RtQueues rq' q where
  rings := hrt ▸ h.rings
  bitmap := hrt ▸ h.bitmap
  delimiter := hrt ▸ h.delimiter
  onRq p := by rw [hon]; exact h.onRq p
  prio {i p} hm := (hprio i p hm).trans (h.prio hm)
  rtNrRunning := hrt ▸ h.rtNrRunning
  rtQueued := hrt ▸ h.rtQueued
  highest := hrt ▸ h.highest

/-- `init_rt_rq` empties the queues. -/
theorem init (hon : ∀ p, (rq.tasks p).rtOnRq = false) : RtQueues rq.initRtRq fun _ => [] where
  rings := Rings.init fun i => List.mem_finRange i
  bitmap i := by
    have hne : (i : Nat) ≠ MAX_RT_PRIO := Nat.ne_of_lt i.isLt
    simp [Rq.initRtRq, putBit, hne]
  delimiter := by simp [Rq.initRtRq, putBit]
  onRq p := by simp [Rq.initRtRq, hon]
  prio hm := by simp at hm
  rtNrRunning := by simp [Rq.initRtRq, total]
  rtQueued := by simp [Rq.initRtRq, total]
  highest := .inr ⟨rfl, fun _ => rfl⟩

/-- `enqueue_task_rt` returns at once on a queued task. -/
theorem enqueue_queued (hp : (rq.tasks p).rtOnRq = true) : rq.enqueueTaskRt p f = rq := by
  simp [Rq.enqueueTaskRt, hp]

/-- `dequeue_task_rt` returns at once on a task that is not queued. -/
theorem dequeue_alone (hp : (rq.tasks p).rtOnRq = false) : rq.dequeueTaskRt p f = rq := by
  simp [Rq.dequeueTaskRt, hp]

/-- The minimum after a task was queued. -/
theorem lowest_append {k : Nat} (h : Lowest q k) (p : Pid) (i : Fin MAX_RT_PRIO) :
    Lowest (Function.update q i (q i ++ [p])) (if (i : Nat) < k then (i : Nat) else k) := by
  have hne (j : Fin MAX_RT_PRIO) (hj : j ≠ i) : Function.update q i (q i ++ [p]) j = q j :=
    Function.update_of_ne hj ..
  have hself : Function.update q i (q i ++ [p]) i ≠ [] := by simp
  rcases h with ⟨m, rfl, hm, hmin⟩ | ⟨rfl, hall⟩
  · split
    · next hlt =>
      refine .inl ⟨i, rfl, hself, fun j hj => ?_⟩
      rw [hne j (Fin.ne_of_lt hj)]
      exact hmin j (Fin.lt_def.mpr (by have := Fin.lt_def.mp hj; omega))
    · next hlt =>
      refine .inl ⟨m, rfl, ?_, fun j hj => ?_⟩
      · by_cases hmi : m = i
        · subst hmi
          exact hself
        · rwa [hne m hmi]
      · have hji : j ≠ i := fun hji => hlt (by rw [← hji]; exact Fin.lt_def.mp hj)
        rw [hne j hji]
        exact hmin j hj
  · -- no task was queued: the sentinel is the last priority
    have hle : (i : Nat) ≤ MAX_RT_PRIO - 1 := by have := i.isLt; omega
    have heq : (if (i : Nat) < MAX_RT_PRIO - 1 then (i : Nat) else MAX_RT_PRIO - 1) = i := by
      split <;> omega
    rw [heq]
    refine .inl ⟨i, rfl, hself, fun j hj => ?_⟩
    rw [hne j (Fin.ne_of_lt hj)]
    exact hall j

/-- `enqueue_task_rt` on a task that is not queued appends it to the list of its priority. -/
theorem enqueue (h : RtQueues rq q) (hp : (rq.tasks p).rtOnRq = false)
    (hlt : (rq.tasks p).prio < MAX_RT_PRIO) :
    RtQueues (rq.enqueueTaskRt p f)
      (Function.update q ⟨(rq.tasks p).prio, hlt⟩ (q ⟨(rq.tasks p).prio, hlt⟩ ++ [p])) := by
  have hnot := h.not_mem hp
  have htasks : (rq.enqueueTaskRt p f).tasks =
      Function.update rq.tasks p { rq.tasks p with rtOnRq := true } := by
    simp [Rq.enqueueTaskRt, hp, Rq.modTask]
  have hprio (x : Pid) : ((rq.enqueueTaskRt p f).tasks x).prio = (rq.tasks x).prio := by
    rw [htasks]
    by_cases hx : x = p
    · subst hx
      simp
    · simp [hx]
  have hrt : (rq.enqueueTaskRt p f).rt =
      { links := rq.rt.links.listAddTail (.elem p) (.head ⟨(rq.tasks p).prio, hlt⟩)
        bitmap := putBit rq.rt.bitmap (rq.tasks p).prio true
        rtNrRunning := rq.rt.rtNrRunning + 1
        highestPrioCurr := if (rq.tasks p).prio < rq.rt.highestPrioCurr then (rq.tasks p).prio
          else rq.rt.highestPrioCurr
        rtQueued := true } := by
    simp [Rq.enqueueTaskRt, hp, Rq.modTask, rtQueue_eq hlt]
  refine ⟨?_, fun j => ?_, ?_, fun x => ?_, fun {j x} hx => ?_, ?_, ?_, ?_⟩
  · rw [hrt]
    exact h.rings.addTail hnot _
  · rw [hrt]
    by_cases hj : j = ⟨(rq.tasks p).prio, hlt⟩
    · subst hj
      simp
    · have hval : (j : Nat) ≠ (rq.tasks p).prio := fun hv => hj (Fin.ext hv)
      rw [Function.update_of_ne hj]
      dsimp only
      rw [putBit_of_ne _ _ hval]
      exact h.bitmap j
  · rw [hrt]
    exact (putBit_of_ne _ true (Nat.ne_of_gt hlt)).trans h.delimiter
  · simp only [Rings.mem_update_append, htasks]
    by_cases hx : x = p
    · subst hx
      simp
    · rw [Function.update_of_ne hx, h.onRq x]
      simp [hx]
  · rw [hprio]
    rcases Rings.mem_update_append.mp hx with hx | ⟨rfl, rfl⟩
    · exact h.prio hx
    · rfl
  · rw [hrt, total_append, h.rtNrRunning]
  · rw [hrt, total_append]
    simp
  · rw [hrt]
    exact lowest_append h.highest p ⟨(rq.tasks p).prio, hlt⟩

/-- `dequeue_task_rt` on a queued task takes it out of the list of its priority. -/
theorem dequeue (h : RtQueues rq q) (hp : (rq.tasks p).rtOnRq = true)
    (hlt : (rq.tasks p).prio < MAX_RT_PRIO) :
    RtQueues (rq.dequeueTaskRt p f)
      (Function.update q ⟨(rq.tasks p).prio, hlt⟩ ((q ⟨(rq.tasks p).prio, hlt⟩).erase p)) := by
  have hm := h.mem hp hlt
  have hrings := h.rings.delInit hm
  have htotal := total_erase hm
  have htasks : (rq.dequeueTaskRt p f).tasks =
      Function.update rq.tasks p { rq.tasks p with rtOnRq := false } := by
    simp [Rq.dequeueTaskRt, hp, Rq.modTask]
  -- the bitmap after the queue was looked at
  obtain ⟨bm, hbm⟩ : ∃ bm, bm =
      if (rq.rt.links.listDelInit (.elem p)).listEmpty (.head ⟨(rq.tasks p).prio, hlt⟩)
      then putBit rq.rt.bitmap (rq.tasks p).prio false else rq.rt.bitmap := ⟨_, rfl⟩
  have hrt : (rq.dequeueTaskRt p f).rt =
      { links := rq.rt.links.listDelInit (.elem p)
        bitmap := bm
        rtNrRunning := rq.rt.rtNrRunning - 1
        highestPrioCurr := if findFirstBit bm MAX_RT_PRIO < MAX_RT_PRIO
          then findFirstBit bm MAX_RT_PRIO else MAX_RT_PRIO - 1
        rtQueued := if rq.rt.rtNrRunning - 1 = 0 then false else rq.rt.rtQueued } := by
    rw [hbm]
    simp [Rq.dequeueTaskRt, hp, Rq.modTask, rtQueue_eq hlt]
  have hbits (j : Fin MAX_RT_PRIO) : bm j = true ↔
      Function.update q ⟨(rq.tasks p).prio, hlt⟩
        ((q ⟨(rq.tasks p).prio, hlt⟩).erase p) j ≠ [] := by
    have hiff := hrings.listEmpty_head (i := ⟨(rq.tasks p).prio, hlt⟩)
    rw [Function.update_self] at hiff
    rw [hbm]
    by_cases hj : j = ⟨(rq.tasks p).prio, hlt⟩
    · subst hj
      rw [Function.update_self]
      split
      · next hempty => simp [hiff.mp hempty]
      · next hempty =>
        have hset : rq.rt.bitmap (rq.tasks p).prio = true :=
          (h.bitmap ⟨(rq.tasks p).prio, hlt⟩).mpr (List.ne_nil_of_mem hm)
        exact iff_of_true hset fun hnil => hempty (hiff.mpr hnil)
    · have hval : (j : Nat) ≠ (rq.tasks p).prio := fun hv => hj (Fin.ext hv)
      rw [Function.update_of_ne hj]
      split
      · rw [putBit_of_ne _ _ hval]
        exact h.bitmap j
      · exact h.bitmap j
  refine ⟨?_, fun j => ?_, ?_, fun x => ?_, fun {j x} hx => ?_, ?_, ?_, ?_⟩
  · rw [hrt]
    exact hrings
  · rw [hrt]
    exact hbits j
  · rw [hrt, hbm]
    dsimp only
    split
    · exact (putBit_of_ne _ false (Nat.ne_of_gt hlt)).trans h.delimiter
    · exact h.delimiter
  · simp only [h.rings.mem_update_erase hm, htasks]
    by_cases hx : x = p
    · subst hx
      simp
    · rw [Function.update_of_ne hx, h.onRq x]
      simp [hx]
  · obtain ⟨hx, hxp⟩ := (h.rings.mem_update_erase hm).mp hx
    rw [htasks, Function.update_of_ne hxp]
    exact h.prio hx
  · rw [hrt]
    dsimp only
    rw [h.rtNrRunning]
    omega
  · rw [hrt]
    dsimp only
    rw [h.rtNrRunning]
    split
    · simp
      omega
    · rw [h.rtQueued]
      omega
  · rw [hrt]
    exact lowest_findFirstBit hbits

/-- Moving a queued task to the end of its list. -/
theorem rotate (h : RtQueues rq q) (hp : (rq.tasks p).rtOnRq = true)
    (hlt : (rq.tasks p).prio < MAX_RT_PRIO) :
    RtQueues (rq.rotateRt p)
      (Function.update q ⟨(rq.tasks p).prio, hlt⟩
        ((q ⟨(rq.tasks p).prio, hlt⟩).erase p ++ [p])) := by
  have hm := h.mem hp hlt
  have hne (j : Fin MAX_RT_PRIO) : (Function.update q ⟨(rq.tasks p).prio, hlt⟩
      ((q ⟨(rq.tasks p).prio, hlt⟩).erase p ++ [p]) j = []) ↔ q j = [] := by
    by_cases hj : j = ⟨(rq.tasks p).prio, hlt⟩
    · subst hj
      simp [List.ne_nil_of_mem hm]
    · rw [Function.update_of_ne hj]
  have htotal : total (Function.update q ⟨(rq.tasks p).prio, hlt⟩
      ((q ⟨(rq.tasks p).prio, hlt⟩).erase p ++ [p])) = total q := by
    have hup := total_update (q := q) (i := ⟨(rq.tasks p).prio, hlt⟩)
      (l := (q ⟨(rq.tasks p).prio, hlt⟩).erase p ++ [p])
    have hpos := List.length_pos_of_mem hm
    rw [List.length_append, List.length_erase_of_mem hm, List.length_singleton] at hup
    omega
  refine ⟨?_, fun j => ?_, h.delimiter, fun x => ?_, fun {j x} hx => ?_, ?_, ?_, ?_⟩
  · rw [Rq.rotateRt, rtQueue_eq hlt]
    exact h.rings.moveTail hm
  · rw [ne_eq, hne]
    exact h.bitmap j
  · simp only [h.rings.mem_moveTail hm]
    exact h.onRq x
  · exact h.prio ((h.rings.mem_moveTail hm).mp hx)
  · rw [htotal]
    exact h.rtNrRunning
  · rw [htotal]
    exact h.rtQueued
  · simp only [Lowest, ne_eq, hne]
    exact h.highest

/-- `yield_task_rt` moves a queued donor to the end of its list. -/
theorem yield (h : RtQueues rq q) (hp : (rq.tasks rq.donor).rtOnRq = true)
    (hlt : (rq.tasks rq.donor).prio < MAX_RT_PRIO) :
    RtQueues rq.yieldTaskRt
      (Function.update q ⟨(rq.tasks rq.donor).prio, hlt⟩
        ((q ⟨(rq.tasks rq.donor).prio, hlt⟩).erase rq.donor ++ [rq.donor])) := by
  have hm := h.mem hp hlt
  rw [Rq.yieldTaskRt, rtQueue_eq hlt]
  split
  · exact h.rotate hp hlt
  · next hcond =>
    have hprev : rq.rt.links.prev (.head ⟨(rq.tasks rq.donor).prio, hlt⟩) =
      .elem rq.donor := by
      by_contra hne
      exact hcond ⟨hp, hne⟩
    rw [h.rings.moveTail_last hprev, Function.update_eq_self]
    exact h

/-- `yield_task_rt` does nothing for a donor that is not queued. -/
theorem yield_alone (hp : (rq.tasks rq.donor).rtOnRq = false) : rq.yieldTaskRt = rq := by
  simp [Rq.yieldTaskRt, hp]

/-- Nothing is picked exactly if nothing is queued. -/
theorem pick_none (h : RtQueues rq q) : rq.pickTaskRt = none ↔ ∀ i, q i = [] := by
  have hzero : rq.rt.rtNrRunning = 0 ↔ ∀ i, q i = [] := by
    rw [h.rtNrRunning, total_eq_zero]
  rw [Rq.pickTaskRt]
  split
  · next hall => exact iff_of_true rfl (hzero.mp hall)
  · next hall =>
    rw [hzero] at hall
    obtain ⟨hsize, hclear⟩ | ⟨hlt, -, -⟩ := findFirstBit_cases rq.rt.bitmap MAX_RT_PRIO
    · refine absurd (fun i => ?_) hall
      by_contra hne
      have := (h.bitmap i).mpr hne
      rw [hclear i i.isLt] at this
      cases this
    · rw [dif_pos hlt]
      exact iff_of_false (by simp) hall

/-- What is picked is the task at the front of the first list that is not empty. -/
theorem pick_some (h : RtQueues rq q) {n : Node (Fin MAX_RT_PRIO) Pid}
    (hn : rq.pickTaskRt = some n) :
    ∃ i p l, n = .elem p ∧ q i = p :: l ∧ ∀ j < i, q j = [] := by
  rw [Rq.pickTaskRt] at hn
  split at hn
  · cases hn
  obtain ⟨hsize, -⟩ | ⟨hlt, hset, hmin⟩ := findFirstBit_cases rq.rt.bitmap MAX_RT_PRIO
  · rw [dif_neg (by omega)] at hn
    cases hn
  · rw [dif_pos hlt] at hn
    obtain ⟨p, l, hq⟩ := List.exists_cons_of_ne_nil ((h.bitmap ⟨_, hlt⟩).mp hset)
    rw [h.rings.next_head hq] at hn
    refine ⟨⟨_, hlt⟩, p, l, (Option.some.inj hn).symm, hq, fun j hj => ?_⟩
    by_contra hne
    have := (h.bitmap j).mpr hne
    rw [hmin j hj] at this
    cases this

/-- Enqueueing a task that is not queued counts it. -/
theorem enqueue_nrRunning (hp : (rq.tasks p).rtOnRq = false) :
    (rq.enqueueTaskRt p f).nrRunning = rq.nrRunning + 1 := by
  simp [Rq.enqueueTaskRt, hp, Rq.modTask]

/-- Dequeueing a queued task counts it off. -/
theorem dequeue_nrRunning (hp : (rq.tasks p).rtOnRq = true) :
    (rq.dequeueTaskRt p f).nrRunning = rq.nrRunning - 1 := by
  simp [Rq.dequeueTaskRt, hp, Rq.modTask]

/-- Changes to fields of tasks that the class does not look at. -/
theorem modTask (h : RtQueues rq q) {g : TaskStruct → TaskStruct}
    (hon : (g (rq.tasks p)).rtOnRq = (rq.tasks p).rtOnRq)
    (hprio : (rq.tasks p).rtOnRq = true → (g (rq.tasks p)).prio = (rq.tasks p).prio) :
    RtQueues (rq.modTask p g) q := by
  refine h.congr rfl (fun x => ?_) fun i x hx => ?_
  · by_cases hx : x = p
    · subst hx
      simpa using hon
    · rw [Rq.modTask_tasks_of_ne _ _ _ hx]
  · by_cases hxp : x = p
    · subst hxp
      simpa using hprio ((h.onRq x).mpr ⟨i, hx⟩)
    · rw [Rq.modTask_tasks_of_ne _ _ _ hxp]

end RtQueues

/-! ### Runs of the class -/

/-- What `core.c` does with the class. -/
inductive RtOp where
  | enqueue (p : Pid) (f : Flags)
  | dequeue (p : Pid) (f : Flags)
  | yield
  | setPrio (p : Pid) (prio : Nat)
  | setDonor (p : Pid)

/-- One operation on the class: the priority of an enqueued task is in range, and the
priority of a task changes only while it is dequeued. -/
def rtStep (rq : Rq) : RtOp → Option Rq
  | .enqueue p f => if (rq.tasks p).prio < MAX_RT_PRIO then some (rq.enqueueTaskRt p f)
      else none
  | .dequeue p f => some (rq.dequeueTaskRt p f)
  | .yield => some rq.yieldTaskRt
  | .setPrio p prio =>
      if (rq.tasks p).rtOnRq then none
      else some (rq.modTask p fun T => { T with prio := prio })
  | .setDonor p => some { rq with donor := p }

/-- The states reached from `init_rt_rq`, on memory with arbitrary links and an arbitrary
donor, with the other classes contributing `base` to `nr_running`. -/
inductive RtReachable (base : Nat) : Rq → Prop where
  | init (rq : Rq) (hrun : rq.nrRunning = base) (hon : ∀ p, (rq.tasks p).rtOnRq = false) :
      RtReachable base rq.initRtRq
  | step {rq rq' : Rq} (o : RtOp) (h : RtReachable base rq) (hs : rtStep rq o = some rq') :
      RtReachable base rq'

/-- Every operation keeps the agreement and the contribution to `nr_running`. -/
theorem rtStep_inv {base : Nat} {rq rq' : Rq} {o : RtOp} (h : RtQueues rq q)
    (hrun : rq.nrRunning = base + total q) (hs : rtStep rq o = some rq') :
    ∃ q', RtQueues rq' q' ∧ rq'.nrRunning = base + total q' := by
  cases o with
  | enqueue p f =>
      simp only [rtStep] at hs
      split at hs
      · next hlt =>
        obtain rfl := Option.some.inj hs
        by_cases hon : (rq.tasks p).rtOnRq = true
        · rw [RtQueues.enqueue_queued hon]
          exact ⟨q, h, hrun⟩
        · have hon' : (rq.tasks p).rtOnRq = false := by simpa using hon
          refine ⟨_, h.enqueue (f := f) hon' hlt, ?_⟩
          rw [total_append, RtQueues.enqueue_nrRunning hon', hrun]
          omega
      · cases hs
  | dequeue p f =>
      obtain rfl := Option.some.inj hs
      by_cases hon : (rq.tasks p).rtOnRq = true
      · have hlt := h.prio_lt hon
        have htotal := total_erase (h.mem hon hlt)
        refine ⟨_, h.dequeue (f := f) hon hlt, ?_⟩
        rw [RtQueues.dequeue_nrRunning hon, hrun]
        omega
      · rw [RtQueues.dequeue_alone (by simpa using hon)]
        exact ⟨q, h, hrun⟩
  | yield =>
      obtain rfl := Option.some.inj hs
      by_cases hon : (rq.tasks rq.donor).rtOnRq = true
      · have hyield := h.yield hon (h.prio_lt hon)
        have hframe : rq.yieldTaskRt.nrRunning = rq.nrRunning ∧
            rq.yieldTaskRt.rt.rtNrRunning = rq.rt.rtNrRunning := by
          unfold Rq.yieldTaskRt
          split <;> exact ⟨rfl, rfl⟩
        refine ⟨_, hyield, ?_⟩
        rw [← hyield.rtNrRunning, hframe.1, hframe.2, h.rtNrRunning]
        exact hrun
      · rw [RtQueues.yield_alone (by simpa using hon)]
        exact ⟨q, h, hrun⟩
  | setPrio p prio =>
      simp only [rtStep] at hs
      split at hs
      · cases hs
      · next hon =>
        obtain rfl := Option.some.inj hs
        exact ⟨q, h.modTask rfl fun hon' => absurd hon' hon, hrun⟩
  | setDonor p =>
      obtain rfl := Option.some.inj hs
      exact ⟨q, h.congr rfl (fun _ => rfl) fun _ _ _ => rfl, hrun⟩

/-- The agreement holds in every reachable state. -/
theorem RtReachable.inv {base : Nat} {rq : Rq} (h : RtReachable base rq) :
    ∃ q, RtQueues rq q ∧ rq.nrRunning = base + total q := by
  induction h with
  | init rq hrun hon =>
      refine ⟨fun _ => [], RtQueues.init hon, ?_⟩
      simpa [Rq.initRtRq, total] using hrun
  | step o _ hs ih =>
      obtain ⟨q, hq, hrun⟩ := ih
      exact rtStep_inv hq hrun hs

/-- **The run queue of the real-time class is consistent** in every reachable state: the
bitmap marks the priorities with a task and its delimiter, a task is marked queued exactly
if it is, once, in the list of its priority, the counters and the contribution to
`nr_running` are the number of queued tasks, `highest_prio.curr` is the first priority with
a task or the sentinel, and the pick is the front of that list. -/
theorem rt_runqueue_consistent {base : Nat} {rq : Rq} (h : RtReachable base rq) :
    ∃ q : Fin MAX_RT_PRIO → List Pid,
      Rings rq.rt.links q ∧
      (∀ i : Fin MAX_RT_PRIO, rq.rt.bitmap i = true ↔ q i ≠ []) ∧
      rq.rt.bitmap MAX_RT_PRIO = true ∧
      (∀ p, (rq.tasks p).rtOnRq = true ↔ ∃ i, p ∈ q i) ∧
      (∀ i p, p ∈ q i → (rq.tasks p).prio = (i : Nat) ∧ (q i).count p = 1) ∧
      rq.rt.rtNrRunning = total q ∧ rq.nrRunning = base + total q ∧
      (rq.rt.rtQueued = true ↔ 0 < rq.rt.rtNrRunning) ∧
      ((∃ i : Fin MAX_RT_PRIO, rq.rt.highestPrioCurr = i ∧ q i ≠ [] ∧ ∀ j < i, q j = []) ∨
        rq.rt.highestPrioCurr = MAX_RT_PRIO - 1 ∧ ∀ i, q i = []) ∧
      (rq.pickTaskRt = none ↔ total q = 0) ∧
      ∀ n, rq.pickTaskRt = some n →
        ∃ i p l, n = .elem p ∧ q i = p :: l ∧ ∀ j < i, q j = [] := by
  obtain ⟨q, hq, hrun⟩ := h.inv
  refine ⟨q, hq.rings, hq.bitmap, hq.delimiter, hq.onRq, fun i p hm => ?_, hq.rtNrRunning,
    hrun, ?_, hq.highest, ?_, fun n hn => hq.pick_some hn⟩
  · exact ⟨hq.prio hm, List.count_eq_one_of_mem (hq.rings.nodup i) hm⟩
  · rw [hq.rtNrRunning]
    exact hq.rtQueued
  · rw [hq.pick_none, total_eq_zero]

/-- The states of a run are reachable. -/
theorem RtReachable.run {base : Nat} {rq rq' : Rq} (h : RtReachable base rq)
    {os : List RtOp} (hs : os.foldlM rtStep rq = some rq') : RtReachable base rq' := by
  induction os generalizing rq with
  | nil =>
      obtain rfl := Option.some.inj hs
      exact h
  | cons o os ih =>
      obtain ⟨rq₁, hs₁, hs⟩ := Option.bind_eq_some_iff.mp hs
      exact ih (h.step o hs₁) hs

/-- Two tasks of different priorities are woken. -/
theorem rt_runqueue_consistent_two : ∃ rq : Rq,
    [.setPrio 1 50, .setPrio 2 40, .enqueue 1 {}, .enqueue 2 {}].foldlM rtStep
      bootRq.initRtRq = some rq ∧
      rq.rt.highestPrioCurr = 40 ∧ ∃ q, Rings rq.rt.links q ∧ rq.rt.rtNrRunning = total q := by
  have hinit : RtReachable 0 bootRq.initRtRq := .init _ rfl fun p => (bootRq_alone p).2.1
  have hrun : [.setPrio 1 50, .setPrio 2 40, .enqueue 1 {}, .enqueue 2 {}].foldlM rtStep
      bootRq.initRtRq = some _ := rfl
  obtain ⟨q, hr, -, -, -, -, hn, -⟩ := rt_runqueue_consistent (hinit.run hrun)
  exact ⟨_, hrun, rfl, q, hr, hn⟩

end Adbd.Sched
