import Adbd.ListHead
import Mathlib.Algebra.Ring.Nat

/-!
# The Tiny Scheduler Classes

The kernel patches of this image replace the `SCHED_NORMAL` class by three priority buckets
(`CONFIG_SCHED_FAIR_TINY`) and the real-time class by one FIFO per priority
(`CONFIG_SCHED_RT_TINY`). This module has the run queue both work on and the callbacks of
the two `sched_class` tables.

There is one CPU. The links `se.group_node` and `rt.run_list` of the tasks and the list
heads of the queues are intrusive circular lists in one memory per class. The run-time
statistics `update_curr_common` keeps (`exec_start`, `sum_exec_runtime`) and the slice of
the real-time class, which nothing reads, are left out.

## Main definitions

* `TaskStruct`, `Rq`: the fields of `task_struct` and `rq` that the callbacks use.
* `enqueueTaskFair`, `dequeueTaskFair`, `yieldTaskFair`, `wakeupPreemptFair`,
  `pickTaskFair`, `setNextTaskFair`, `taskTickFair`, `taskForkFair`, `prioChangedFair`,
  `switchedToFair`: the fair class.
* `enqueueTaskRt`, `dequeueTaskRt`, `yieldTaskRt`, `wakeupPreemptRt`, `pickTaskRt`,
  `prioChangedRt`, `switchedToRt`: the real-time class.
-/

namespace Adbd.Sched

open ListHead

/-- The scheduling policies, `SCHED_NORMAL` and so on. -/
inductive Policy where
  | normal
  | batch
  | idle
  | fifo
  | rr
deriving DecidableEq, Repr

/-- The scheduling classes of the image, highest first; the idle class has one task, which
is never queued. -/
inductive SchedClass where
  | rt
  | fair
  | idle
deriving DecidableEq, Repr

/-- `NICE_TO_PRIO(0)` -/
def NICE_TO_PRIO_0 : Int := 120

def MAX_RT_PRIO : Nat := 100

def NR_TINY_PRIO : Nat := 3

instance : NeZero MAX_RT_PRIO := ⟨by decide⟩

/-- `HZ` of this image, `CONFIG_HZ_1000`. -/
def HZ : Nat := 1000

/-- The time slice, in jiffies. -/
def TINY_DEFAULT_SLICE : Nat := HZ / 50 + 1

/-- A task is named by its process id. -/
abbrev Pid := Nat

/-- The flags of an enqueue or a dequeue: `*_WAKEUP`/`*_SLEEP`, `ENQUEUE_RESTORE` or
`DEQUEUE_SAVE`, `*_MOVE` and `ENQUEUE_HEAD`. -/
structure Flags where
  wakeup : Bool := false
  restore : Bool := false
  move : Bool := false
  head : Bool := false
deriving DecidableEq, Repr

/-- The scheduling fields of `struct task_struct`. -/
structure TaskStruct where
  policy : Policy := .normal
  staticPrio : Int := NICE_TO_PRIO_0
  /-- the effective priority: below `MAX_RT_PRIO` for a real-time task -/
  prio : Nat := 120
  schedClass : SchedClass := .fair
  /-- `on_rq` is `TASK_ON_RQ_QUEUED` -/
  onRq : Bool := false
  /-- `se.on_rq` -/
  seOnRq : Bool := false
  /-- `se.slice` -/
  slice : Nat := 0
  /-- `rt.on_rq` -/
  rtOnRq : Bool := false
deriving DecidableEq, Repr

/-- `struct tiny_rq`, with the links of the queues and of every `se.group_node`. -/
structure TinyRq where
  active : Nat → Bool
  links : Links (Node (Fin NR_TINY_PRIO) Pid)

/-- The counters of `struct cfs_rq`. -/
structure CfsRq where
  nrQueued : Nat := 0
  hNrQueued : Nat := 0
deriving DecidableEq, Repr

/-- `struct rt_rq`, with the links of the queues and of every `rt.run_list`. -/
structure RtRq where
  bitmap : Nat → Bool
  links : Links (Node (Fin MAX_RT_PRIO) Pid)
  rtNrRunning : Nat := 0
  /-- `highest_prio.curr` -/
  highestPrioCurr : Nat := MAX_RT_PRIO - 1
  rtQueued : Bool := false

/-- `struct rq`, with the tasks, and the mark `resched_curr` leaves. -/
structure Rq where
  tasks : Pid → TaskStruct
  donor : Pid
  nrRunning : Nat := 0
  needResched : Bool := false
  tiny : TinyRq
  cfs : CfsRq := {}
  rt : RtRq

namespace Rq

/-- Change the fields of one task. -/
def modTask (rq : Rq) (p : Pid) (f : TaskStruct → TaskStruct) : Rq :=
  { rq with tasks := Function.update rq.tasks p (f (rq.tasks p)) }

/-- `resched_curr`. -/
def reschedCurr (rq : Rq) : Rq := { rq with needResched := true }

end Rq

/-- The run queue at boot, before the classes are initialised: zeroed memory, and task `0`,
the idle task, as the donor. -/
def bootRq : Rq where
  tasks := Function.update (fun _ => {}) 0
    { policy := .normal, prio := 140, schedClass := .idle }
  donor := 0
  tiny := { active := fun _ => false, links := ⟨fun _ => .elem 0, fun _ => .elem 0⟩ }
  rt := { bitmap := fun _ => false, links := ⟨fun _ => .elem 0, fun _ => .elem 0⟩ }

/-- No task of the run queue at boot is marked queued. -/
theorem bootRq_alone (p : Pid) :
    (bootRq.tasks p).seOnRq = false ∧ (bootRq.tasks p).rtOnRq = false ∧
      (bootRq.tasks p).onRq = false := by
  by_cases hp : p = 0
  · subst hp
    exact ⟨rfl, rfl, rfl⟩
  · simp [bootRq, hp]

/-- `__set_bit` and `__clear_bit`. -/
def putBit (bm : Nat → Bool) (i : Nat) (b : Bool) : Nat → Bool := Function.update bm i b

@[simp] theorem putBit_self (bm : Nat → Bool) (i : Nat) (b : Bool) : putBit bm i b i = b := by
  simp [putBit]

theorem putBit_of_ne (bm : Nat → Bool) {i j : Nat} (b : Bool) (h : j ≠ i) :
    putBit bm i b j = bm j := by
  simp [putBit, h]

/-- `find_first_bit`: the first set bit below `n`, or `n`. -/
def findFirstBit (bm : Nat → Bool) (n : Nat) : Nat := ((List.range n).find? bm).getD n

/-- `find_first_bit` finds the first set bit. -/
theorem findFirstBit_eq {bm : Nat → Bool} {i n : Nat} (hi : i < n) (hb : bm i = true)
    (hlt : ∀ j < i, bm j = false) : findFirstBit bm n = i := by
  have hfind : (List.range n).find? bm = some i := by
    rw [List.find?_range_eq_some]
    exact ⟨hb, by simpa using hi, fun j hj => by simp [hlt j hj]⟩
  simp [findFirstBit, hfind]

/-- Without a set bit `find_first_bit` returns the size. -/
theorem findFirstBit_size {bm : Nat → Bool} {n : Nat} (h : ∀ i < n, bm i = false) :
    findFirstBit bm n = n := by
  have hfind : (List.range n).find? bm = none := by
    rw [List.find?_range_eq_none]
    exact fun i hi => by simp [h i hi]
  simp [findFirstBit, hfind]

/-- `find_first_bit` returns the size, or the first set bit. -/
theorem findFirstBit_cases (bm : Nat → Bool) (n : Nat) :
    (findFirstBit bm n = n ∧ ∀ i < n, bm i = false) ∨
      findFirstBit bm n < n ∧ bm (findFirstBit bm n) = true ∧
        ∀ j < findFirstBit bm n, bm j = false := by
  by_cases h : ∀ i < n, bm i = false
  · exact .inl ⟨findFirstBit_size h, h⟩
  · push Not at h
    obtain ⟨i, hi, hb⟩ := h
    have hex : ∃ i, i < n ∧ bm i = true := ⟨i, hi, by simpa using hb⟩
    obtain ⟨hlt, hset⟩ := Nat.find_spec hex
    have hmin (j : Nat) (hj : j < Nat.find hex) : bm j = false := by
      by_contra hj'
      exact Nat.find_min hex hj ⟨by omega, by simpa using hj'⟩
    have heq := findFirstBit_eq hlt hset hmin
    rw [heq]
    exact .inr ⟨hlt, hset, hmin⟩

/-! ### The fair class -/

def TINY_PRIO_HIGH : Fin NR_TINY_PRIO := ⟨0, by decide⟩
def TINY_PRIO_NORMAL : Fin NR_TINY_PRIO := ⟨1, by decide⟩
def TINY_PRIO_LOW : Fin NR_TINY_PRIO := ⟨2, by decide⟩

/-- `tiny_prio_of`: the bucket of a task. -/
def tinyPrioOf (p : TaskStruct) : Fin NR_TINY_PRIO :=
  if p.policy = .idle then TINY_PRIO_LOW
  else if p.staticPrio < NICE_TO_PRIO_0 then TINY_PRIO_HIGH
  else if p.staticPrio > NICE_TO_PRIO_0 then TINY_PRIO_LOW
  else TINY_PRIO_NORMAL

namespace Rq

/-- The bucket of task `p`. -/
def tinyPrio (rq : Rq) (p : Pid) : Fin NR_TINY_PRIO := tinyPrioOf (rq.tasks p)

/-- `init_sched_fair_class`, on a run queue whose memory is arbitrary. -/
def initSchedFairClass (rq : Rq) : Rq :=
  { rq with
    tiny :=
      { active := fun i => if i < NR_TINY_PRIO then false else rq.tiny.active i
        links := (List.finRange NR_TINY_PRIO).foldl (fun m b => m.initListHead (.head b))
          rq.tiny.links } }

/-- `enqueue_task_fair`. The flags are not looked at. -/
def enqueueTaskFair (rq : Rq) (p : Pid) (_flags : Flags) : Rq :=
  let prio := rq.tinyPrio p
  let rq :=
    if rq.tiny.links.listEmpty (.elem p) then
      { rq with
        tiny :=
          { links := rq.tiny.links.listAddTail (.elem p) (.head prio)
            active := putBit rq.tiny.active prio true }
        cfs := { nrQueued := rq.cfs.nrQueued + 1, hNrQueued := rq.cfs.hNrQueued + 1 }
        nrRunning := rq.nrRunning + 1 }
    else rq
  rq.modTask p fun T => { T with seOnRq := true }

/-- `dequeue_task_fair`. -/
def dequeueTaskFair (rq : Rq) (p : Pid) (_flags : Flags) : Rq :=
  let prio := rq.tinyPrio p
  let rq :=
    if rq.tiny.links.listEmpty (.elem p) then rq
    else
      let links := rq.tiny.links.listDelInit (.elem p)
      { rq with
        tiny :=
          { links := links
            active :=
              if links.listEmpty (.head prio) then putBit rq.tiny.active prio false
              else rq.tiny.active }
        cfs := { nrQueued := rq.cfs.nrQueued - 1, hNrQueued := rq.cfs.hNrQueued - 1 }
        nrRunning := rq.nrRunning - 1 }
  rq.modTask p fun T => { T with seOnRq := false }

/-- The links after the node of `p` was moved to the end of its bucket. -/
def rotateFair (rq : Rq) (p : Pid) : Rq :=
  { rq with
    tiny :=
      { rq.tiny with
        links := (rq.tiny.links.listDel (.elem p)).listAddTail (.elem p)
          (.head (rq.tinyPrio p)) } }

/-- `yield_task_fair`. -/
def yieldTaskFair (rq : Rq) : Rq :=
  if rq.tiny.links.listEmpty (.elem rq.donor) = false ∧
      rq.tiny.links.prev (.head (rq.tinyPrio rq.donor)) ≠ .elem rq.donor then
    rq.rotateFair rq.donor
  else rq

/-- `wakeup_preempt_fair`. -/
def wakeupPreemptFair (rq : Rq) (p : Pid) (_flags : Flags) : Rq :=
  if rq.tinyPrio p < rq.tinyPrio rq.donor then rq.reschedCurr else rq

/-- `pick_task_fair`: the node at the front of the first non-empty bucket. On an empty list
this would be its head, which is the node of no task. -/
def pickTaskFair (rq : Rq) : Option (Node (Fin NR_TINY_PRIO) Pid) :=
  let prio := findFirstBit rq.tiny.active NR_TINY_PRIO
  if h : prio < NR_TINY_PRIO then some (rq.tiny.links.next (.head ⟨prio, h⟩)) else none

/-- `set_next_task_fair`. -/
def setNextTaskFair (rq : Rq) (p : Pid) : Rq :=
  rq.modTask p fun T => { T with slice := TINY_DEFAULT_SLICE }

/-- `task_tick_fair`. -/
def taskTickFair (rq : Rq) (p : Pid) : Rq :=
  let prio := rq.tinyPrio p
  if rq.tiny.links.next (.head prio) = rq.tiny.links.prev (.head prio) then rq
  else
    let slice := (rq.tasks p).slice
    -- the slice is decremented unless it is zero already
    let rq := rq.modTask p fun T => { T with slice := slice - 1 }
    if slice ≠ 0 ∧ slice - 1 ≠ 0 then rq
    else (rq.rotateFair p).reschedCurr

/-- `task_fork_fair`. -/
def taskForkFair (rq : Rq) (p : Pid) : Rq :=
  { rq with tiny := { rq.tiny with links := rq.tiny.links.initListHead (.elem p) } }.modTask p
    fun T => { T with slice := TINY_DEFAULT_SLICE }

/-- `higher_prio_task_fair`. -/
def higherPrioTaskFair (rq : Rq) (p : Pid) : Bool :=
  findFirstBit rq.tiny.active NR_TINY_PRIO < (rq.tinyPrio p : Nat)

/-- `prio_changed_fair`. -/
def prioChangedFair (rq : Rq) (p : Pid) : Rq :=
  if (rq.tasks p).onRq = false then rq
  else if p = rq.donor then
    if rq.higherPrioTaskFair p then rq.reschedCurr else rq
  else if (rq.tasks rq.donor).schedClass ≠ .fair then rq
  else if rq.tinyPrio p < rq.tinyPrio rq.donor then rq.reschedCurr
  else rq

/-- `switched_to_fair`, whose body is that of `prio_changed_fair`. -/
def switchedToFair (rq : Rq) (p : Pid) : Rq :=
  if (rq.tasks p).onRq = false then rq
  else if p = rq.donor then
    if rq.higherPrioTaskFair p then rq.reschedCurr else rq
  else if (rq.tasks rq.donor).schedClass ≠ .fair then rq
  else if rq.tinyPrio p < rq.tinyPrio rq.donor then rq.reschedCurr
  else rq

/-! What the callbacks of the fair class leave alone -/

section Frame

variable (rq : Rq) (p : Pid) (f : Flags)

@[simp] theorem modTask_donor (g : TaskStruct → TaskStruct) :
    (rq.modTask p g).donor = rq.donor := rfl

@[simp] theorem modTask_tasks_self (g : TaskStruct → TaskStruct) :
    (rq.modTask p g).tasks p = g (rq.tasks p) := by
  simp [modTask]

theorem modTask_tasks_of_ne (g : TaskStruct → TaskStruct) {x : Pid} (h : x ≠ p) :
    (rq.modTask p g).tasks x = rq.tasks x := by
  simp [modTask, h]

theorem enqueueTaskFair_tasks : (rq.enqueueTaskFair p f).tasks =
    Function.update rq.tasks p { rq.tasks p with seOnRq := true } := by
  unfold enqueueTaskFair
  dsimp only
  split <;> rfl

theorem dequeueTaskFair_tasks : (rq.dequeueTaskFair p f).tasks =
    Function.update rq.tasks p { rq.tasks p with seOnRq := false } := by
  unfold dequeueTaskFair
  dsimp only
  split <;> rfl

@[simp] theorem enqueueTaskFair_frame : (rq.enqueueTaskFair p f).rt = rq.rt ∧
    (rq.enqueueTaskFair p f).donor = rq.donor ∧
    (rq.enqueueTaskFair p f).needResched = rq.needResched := by
  unfold enqueueTaskFair
  dsimp only
  split <;> exact ⟨rfl, rfl, rfl⟩

@[simp] theorem dequeueTaskFair_frame : (rq.dequeueTaskFair p f).rt = rq.rt ∧
    (rq.dequeueTaskFair p f).donor = rq.donor ∧
    (rq.dequeueTaskFair p f).needResched = rq.needResched := by
  unfold dequeueTaskFair
  dsimp only
  split <;> exact ⟨rfl, rfl, rfl⟩

@[simp] theorem yieldTaskFair_frame : rq.yieldTaskFair.tasks = rq.tasks ∧
    rq.yieldTaskFair.rt = rq.rt ∧ rq.yieldTaskFair.donor = rq.donor ∧
    rq.yieldTaskFair.needResched = rq.needResched ∧
    rq.yieldTaskFair.nrRunning = rq.nrRunning := by
  unfold yieldTaskFair
  split <;> exact ⟨rfl, rfl, rfl, rfl, rfl⟩

end Frame

/-! ### The real-time class -/

/-- The head of `active.queue[prio]`; the array has `MAX_RT_PRIO` lists, and the priority of
a real-time task is below that. -/
def rtQueue (prio : Nat) : Node (Fin MAX_RT_PRIO) Pid := .head (Fin.ofNat MAX_RT_PRIO prio)

/-- `init_rt_rq`, on a run queue whose memory is arbitrary. -/
def initRtRq (rq : Rq) : Rq :=
  { rq with
    rt :=
      { links := (List.finRange MAX_RT_PRIO).foldl
          (fun m i => m.initListHead (.head i)) rq.rt.links
        bitmap := putBit (fun i => if i < MAX_RT_PRIO then false else rq.rt.bitmap i)
          MAX_RT_PRIO true
        rtNrRunning := 0
        highestPrioCurr := MAX_RT_PRIO - 1
        rtQueued := false } }

/-- `enqueue_task_rt`. The flags are not looked at. -/
def enqueueTaskRt (rq : Rq) (p : Pid) (_flags : Flags) : Rq :=
  let prio := (rq.tasks p).prio
  if (rq.tasks p).rtOnRq then rq
  else
    { rq with
      rt :=
        { links := rq.rt.links.listAddTail (.elem p) (rtQueue prio)
          bitmap := putBit rq.rt.bitmap prio true
          rtNrRunning := rq.rt.rtNrRunning + 1
          highestPrioCurr :=
            if prio < rq.rt.highestPrioCurr then prio else rq.rt.highestPrioCurr
          rtQueued := true }
      nrRunning := rq.nrRunning + 1 }.modTask p fun T => { T with rtOnRq := true }

/-- `dequeue_task_rt`. -/
def dequeueTaskRt (rq : Rq) (p : Pid) (_flags : Flags) : Rq :=
  let prio := (rq.tasks p).prio
  if (rq.tasks p).rtOnRq = false then rq
  else
    let links := rq.rt.links.listDelInit (.elem p)
    let bitmap :=
      if links.listEmpty (rtQueue prio) then putBit rq.rt.bitmap prio false else rq.rt.bitmap
    let nextPrio := findFirstBit bitmap MAX_RT_PRIO
    { rq with
      rt :=
        { links := links
          bitmap := bitmap
          rtNrRunning := rq.rt.rtNrRunning - 1
          highestPrioCurr := if nextPrio < MAX_RT_PRIO then nextPrio else MAX_RT_PRIO - 1
          rtQueued := if rq.rt.rtNrRunning - 1 = 0 then false else rq.rt.rtQueued }
      nrRunning := rq.nrRunning - 1 }.modTask p fun T => { T with rtOnRq := false }

/-- The links after the node of `p` was moved to the end of the list of its priority. -/
def rotateRt (rq : Rq) (p : Pid) : Rq :=
  { rq with
    rt :=
      { rq.rt with
        links := (rq.rt.links.listDel (.elem p)).listAddTail (.elem p)
          (rtQueue (rq.tasks p).prio) } }

/-- `yield_task_rt`. -/
def yieldTaskRt (rq : Rq) : Rq :=
  if (rq.tasks rq.donor).rtOnRq = true ∧
      rq.rt.links.prev (rtQueue (rq.tasks rq.donor).prio) ≠ .elem rq.donor then
    rq.rotateRt rq.donor
  else rq

/-- `wakeup_preempt_rt`. -/
def wakeupPreemptRt (rq : Rq) (p : Pid) (_flags : Flags) : Rq :=
  if (rq.tasks p).prio < (rq.tasks rq.donor).prio then rq.reschedCurr else rq

/-- `pick_task_rt`: the node at the front of the first non-empty queue. -/
def pickTaskRt (rq : Rq) : Option (Node (Fin MAX_RT_PRIO) Pid) :=
  if rq.rt.rtNrRunning = 0 then none
  else
    let prio := findFirstBit rq.rt.bitmap MAX_RT_PRIO
    if h : prio < MAX_RT_PRIO then some (rq.rt.links.next (.head ⟨prio, h⟩)) else none

/-- `prio_changed_rt`. -/
def prioChangedRt (rq : Rq) (p : Pid) : Rq :=
  if (rq.tasks p).onRq = false then rq
  else if p = rq.donor then
    if rq.rt.highestPrioCurr < (rq.tasks p).prio then rq.reschedCurr else rq
  else if (rq.tasks p).prio < (rq.tasks rq.donor).prio then rq.reschedCurr
  else rq

/-- `switched_to_rt`. -/
def switchedToRt (rq : Rq) (p : Pid) : Rq :=
  if (rq.tasks p).onRq = true ∧ (rq.tasks p).prio < (rq.tasks rq.donor).prio
    then rq.reschedCurr
  else rq

/-! What the callbacks of the real-time class leave alone -/

section RtFrame

variable (rq : Rq) (p : Pid) (f : Flags)

theorem enqueueTaskRt_tasks : (rq.enqueueTaskRt p f).tasks =
    Function.update rq.tasks p { rq.tasks p with rtOnRq := true } := by
  unfold enqueueTaskRt
  dsimp only
  split
  · next hon =>
    have htask : ({ rq.tasks p with rtOnRq := true } : TaskStruct) = rq.tasks p := by
      rw [← hon]
    rw [htask, Function.update_eq_self]
  · rfl

theorem dequeueTaskRt_tasks : (rq.dequeueTaskRt p f).tasks =
    Function.update rq.tasks p { rq.tasks p with rtOnRq := false } := by
  unfold dequeueTaskRt
  dsimp only
  split
  · next hon =>
    have htask : ({ rq.tasks p with rtOnRq := false } : TaskStruct) = rq.tasks p := by
      rw [← hon]
    rw [htask, Function.update_eq_self]
  · rfl

@[simp] theorem enqueueTaskRt_frame : (rq.enqueueTaskRt p f).tiny = rq.tiny ∧
    (rq.enqueueTaskRt p f).cfs = rq.cfs ∧ (rq.enqueueTaskRt p f).donor = rq.donor ∧
    (rq.enqueueTaskRt p f).needResched = rq.needResched := by
  unfold enqueueTaskRt
  dsimp only
  split <;> exact ⟨rfl, rfl, rfl, rfl⟩

@[simp] theorem dequeueTaskRt_frame : (rq.dequeueTaskRt p f).tiny = rq.tiny ∧
    (rq.dequeueTaskRt p f).cfs = rq.cfs ∧ (rq.dequeueTaskRt p f).donor = rq.donor ∧
    (rq.dequeueTaskRt p f).needResched = rq.needResched := by
  unfold dequeueTaskRt
  dsimp only
  split <;> exact ⟨rfl, rfl, rfl, rfl⟩

@[simp] theorem yieldTaskRt_frame : rq.yieldTaskRt.tasks = rq.tasks ∧
    rq.yieldTaskRt.tiny = rq.tiny ∧ rq.yieldTaskRt.cfs = rq.cfs ∧
    rq.yieldTaskRt.donor = rq.donor ∧ rq.yieldTaskRt.needResched = rq.needResched := by
  unfold yieldTaskRt
  split <;> exact ⟨rfl, rfl, rfl, rfl, rfl⟩

end RtFrame

end Rq

end Adbd.Sched
