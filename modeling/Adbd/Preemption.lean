import Adbd.Runs
import Adbd.TinyFair
import Adbd.TinyRt

/-!
# Preemption across the Two Classes

Which task runs is decided by `core.c`: it calls the callbacks of the class of a task, picks
the front of the real-time queues before that of the fair buckets, and between picks relies
on the callbacks to ask for a reschedule whenever a better task has become runnable. This
module has its steps (wake-ups, blocking, changes of the parameters or the class of a task,
ticks, yields and picks) over the two tiny classes.

One request is missing. When the running real-time task is moved to the fair class,
`switched_to_fair` compares it with the fair buckets only, and `switched_from_rt` is empty: a
real-time task that waits is not looked at.

## Main definitions

* `CoreStep`, `coreStep`: the steps of `core.c`.
* `Outranks`, `NoneWaits`: a queued task the donor should have been replaced by.
* `Strands`: the change that leaves a real-time task waiting behind a fair one.

## Main results

* `Marked.pick`: after a pick no queued task outranks the donor.
* `coreStep_sound`: every step but a stranding one keeps that.
* `no_lost_preemption_iff`: a run loses no preemption exactly if none of its steps strands a
  real-time task.
-/

namespace Adbd.Sched

open ListHead Runs

namespace Rq

/-! ### Calls through the class of a task -/

/-- `p->sched_class->enqueue_task`. -/
def enqueueTask (rq : Rq) (p : Pid) (f : Flags) : Rq :=
  match (rq.tasks p).schedClass with
  | .rt => rq.enqueueTaskRt p f
  | .fair => rq.enqueueTaskFair p f
  | .idle => rq

/-- `p->sched_class->dequeue_task`. -/
def dequeueTask (rq : Rq) (p : Pid) (f : Flags) : Rq :=
  match (rq.tasks p).schedClass with
  | .rt => rq.dequeueTaskRt p f
  | .fair => rq.dequeueTaskFair p f
  | .idle => rq

/-- `rq->donor->sched_class->yield_task`. -/
def yieldTask (rq : Rq) : Rq :=
  match (rq.tasks rq.donor).schedClass with
  | .rt => rq.yieldTaskRt
  | .fair => rq.yieldTaskFair
  | .idle => rq

/-- `p->sched_class->set_next_task`. -/
def setNextTask (rq : Rq) (p : Pid) : Rq :=
  match (rq.tasks p).schedClass with
  | .fair => rq.setNextTaskFair p
  | _ => rq

/-- `rq->donor->sched_class->task_tick`. -/
def taskTick (rq : Rq) : Rq :=
  match (rq.tasks rq.donor).schedClass with
  | .fair => rq.taskTickFair rq.donor
  | _ => rq

/-- The check after a wake-up: the class of the two tasks if it is the same, and a
reschedule if the class of the woken task is above that of the donor. -/
def wakeupPreempt (rq : Rq) (p : Pid) (f : Flags) : Rq :=
  match (rq.tasks p).schedClass, (rq.tasks rq.donor).schedClass with
  | .rt, .rt => rq.wakeupPreemptRt p f
  | .rt, _ => rq.reschedCurr
  | .fair, .fair => rq.wakeupPreemptFair p f
  | .fair, .idle => rq.reschedCurr
  | _, _ => rq

/-- The class of a priority. -/
def classOf (prio : Nat) : SchedClass := if prio < MAX_RT_PRIO then .rt else .fair

/-- The next task: the real-time class is asked before the fair one, and the idle task is
left if neither has one. A list head for a task would be a bad pointer. -/
def pickNextTask (rq : Rq) : Option Pid :=
  match rq.pickTaskRt with
  | some (.elem p) => some p
  | some (.head _) => none
  | none =>
      match rq.pickTaskFair with
      | some (.elem p) => some p
      | some (.head _) => none
      | none => some 0

/-- A pick: the mark for a reschedule is cleared, and `set_next_task` is called if the task is
another one. -/
def pick (rq : Rq) : Option Rq :=
  rq.pickNextTask.map fun p =>
    let rq := { rq with needResched := false }
    if p = rq.donor then rq else { rq with donor := p }.setNextTask p

/-- The new parameters of a task. -/
def setParams (rq : Rq) (p : Pid) (policy : Policy) (staticPrio : Int) (prio : Nat) : Rq :=
  rq.modTask p fun T =>
    { T with policy := policy, staticPrio := staticPrio, prio := prio,
             schedClass := classOf prio }

/-- A bracket: a queued task is dequeued, its parameters are changed, and it is enqueued
again. -/
def requeueTask (rq : Rq) (p : Pid) (policy : Policy) (staticPrio : Int) (prio : Nat) : Rq :=
  if (rq.tasks p).onRq then
    ((rq.dequeueTask p { restore := true, move := true }).setParams p policy staticPrio
      prio).enqueueTask p { restore := true, move := true }
  else rq.setParams p policy staticPrio prio

/-- The bracket, after which a running task is made the next task again. -/
def bracketTask (rq : Rq) (p : Pid) (policy : Policy) (staticPrio : Int) (prio : Nat) : Rq :=
  let rq := rq.requeueTask p policy staticPrio prio
  if p = rq.donor then rq.setNextTask p else rq

/-- The report of a change to the class of the task, given its class before. -/
def reportChange (rq : Rq) (p : Pid) (oldClass : SchedClass) : Rq :=
  match (rq.tasks p).schedClass with
  | .rt => if oldClass = .rt then rq.prioChangedRt p else rq.switchedToRt p
  | .fair => if oldClass = .fair then rq.prioChangedFair p else rq.switchedToFair p
  | .idle => rq

/-- A change of the parameters of a task. -/
def changeTask (rq : Rq) (p : Pid) (policy : Policy) (staticPrio : Int) (prio : Nat) : Rq :=
  (rq.bracketTask p policy staticPrio prio).reportChange p (rq.tasks p).schedClass

end Rq

/-- The steps of `core.c`. -/
inductive CoreStep where
  | wake (p : Pid)
  | block
  | change (p : Pid) (policy : Policy) (staticPrio : Int) (prio : Nat)
  | tick
  | yield
  | pick

/-- One step of `core.c`. Only a task that sleeps is woken, only the running task blocks, and
the idle task, number `0`, does neither and is not changed. -/
def coreStep (rq : Rq) : CoreStep → Option Rq
  | .wake p =>
      if p = 0 ∨ (rq.tasks p).onRq then none
      else some (((rq.enqueueTask p { wakeup := true }).modTask p fun T =>
        { T with onRq := true }).wakeupPreempt p { wakeup := true })
  | .block =>
      if rq.donor = 0 then none
      else ((rq.dequeueTask rq.donor { wakeup := true }).modTask rq.donor fun T =>
        { T with onRq := false }).pick
  | .change p policy staticPrio prio =>
      if p = 0 then none else some (rq.changeTask p policy staticPrio prio)
  | .tick => some rq.taskTick
  | .yield => rq.yieldTask.pick
  | .pick => rq.pick

/-! ### No lost preemption -/

/-- A queued task `p` that should run in the place of the donor: a real-time task if the
donor is not one or has a larger `prio`, and a fair task if the donor is a fair task of a
bucket further down. -/
def Outranks (rq : Rq) (p : Pid) : Prop :=
  (rq.tasks p).rtOnRq = true ∧
      ((rq.tasks rq.donor).schedClass ≠ .rt ∨ (rq.tasks p).prio < (rq.tasks rq.donor).prio) ∨
    (rq.tasks p).seOnRq = true ∧ (rq.tasks rq.donor).schedClass = .fair ∧
      rq.tinyPrio p < rq.tinyPrio rq.donor

/-- No preemption is lost: if no reschedule is pending, no queued task outranks the donor. -/
def NoneWaits (rq : Rq) : Prop := rq.needResched = false → ∀ p, ¬Outranks rq p

/-- The running real-time task is moved to the fair class while another real-time task is
queued, no reschedule is pending, and no fair task of a better bucket is queued that
`switched_to_fair` would find. -/
def Strands (rq : Rq) : CoreStep → Prop
  | .change p policy staticPrio prio =>
      p = rq.donor ∧ (rq.tasks p).schedClass = .rt ∧ MAX_RT_PRIO ≤ prio ∧
        rq.needResched = false ∧ (∃ x, x ≠ p ∧ (rq.tasks x).rtOnRq = true) ∧
        ∀ x, (rq.tasks x).seOnRq = true → ¬rq.tinyPrio x <
          tinyPrioOf { rq.tasks p with policy := policy, staticPrio := staticPrio }
  | _ => False

/-! ### The queues under the steps -/

variable {rq rq' : Rq} {p x : Pid} {f : Flags}

section Frames

variable (rq p f)

/-- The real-time class leaves the marks of the fair class alone. -/
theorem Rq.enqueueTaskRt_se (x : Pid) :
    ((rq.enqueueTaskRt p f).tasks x).seOnRq = (rq.tasks x).seOnRq ∧
      (rq.enqueueTaskRt p f).tinyPrio x = rq.tinyPrio x := by
  rw [Rq.tinyPrio, Rq.tinyPrio, Rq.enqueueTaskRt_tasks]
  by_cases hx : x = p
  · subst hx
    simp [tinyPrioOf]
  · simp [hx]

theorem Rq.dequeueTaskRt_se (x : Pid) :
    ((rq.dequeueTaskRt p f).tasks x).seOnRq = (rq.tasks x).seOnRq ∧
      (rq.dequeueTaskRt p f).tinyPrio x = rq.tinyPrio x := by
  rw [Rq.tinyPrio, Rq.tinyPrio, Rq.dequeueTaskRt_tasks]
  by_cases hx : x = p
  · subst hx
    simp [tinyPrioOf]
  · simp [hx]

/-- The fair class leaves the marks of the real-time class alone. -/
theorem Rq.enqueueTaskFair_rt (x : Pid) :
    ((rq.enqueueTaskFair p f).tasks x).rtOnRq = (rq.tasks x).rtOnRq ∧
      ((rq.enqueueTaskFair p f).tasks x).prio = (rq.tasks x).prio := by
  rw [Rq.enqueueTaskFair_tasks]
  by_cases hx : x = p
  · subst hx
    simp
  · simp [hx]

theorem Rq.dequeueTaskFair_rt (x : Pid) :
    ((rq.dequeueTaskFair p f).tasks x).rtOnRq = (rq.tasks x).rtOnRq ∧
      ((rq.dequeueTaskFair p f).tasks x).prio = (rq.tasks x).prio := by
  rw [Rq.dequeueTaskFair_tasks]
  by_cases hx : x = p
  · subst hx
    simp
  · simp [hx]

end Frames

section FairSide

variable {q : Fin NR_TINY_PRIO → List Pid}

/-- `enqueue_task` and the fair queues: nothing, or the task is appended to its bucket. -/
theorem FairQueues.enqueueTask (h : FairQueues (fun _ => True) rq q) :
    FairQueues (fun _ => True) (rq.enqueueTask p f) q ∨
      (rq.tasks p).seOnRq = false ∧ FairQueues (fun _ => True) (rq.enqueueTask p f)
        (Function.update q (rq.tinyPrio p) (q (rq.tinyPrio p) ++ [p])) := by
  unfold Rq.enqueueTask
  cases hc : (rq.tasks p).schedClass with
  | rt =>
      obtain ⟨htiny, hcfs, -, -⟩ := rq.enqueueTaskRt_frame p f
      exact .inl (h.congr htiny hcfs (fun x => (rq.enqueueTaskRt_se p f x).1)
        fun _ x _ => (rq.enqueueTaskRt_se p f x).2)
  | fair =>
      cases hon : (rq.tasks p).seOnRq with
      | true => exact .inl (by rw [h.enqueue_queued hon]; exact h)
      | false => exact .inr ⟨rfl, h.enqueue trivial hon⟩
  | idle => exact .inl h

/-- `dequeue_task` and the fair queues: nothing, or the task is taken out of its bucket. -/
theorem FairQueues.dequeueTask (h : FairQueues (fun _ => True) rq q) :
    FairQueues (fun _ => True) (rq.dequeueTask p f) q ∨
      (rq.tasks p).seOnRq = true ∧ FairQueues (fun _ => True) (rq.dequeueTask p f)
        (Function.update q (rq.tinyPrio p) ((q (rq.tinyPrio p)).erase p)) := by
  unfold Rq.dequeueTask
  cases hc : (rq.tasks p).schedClass with
  | rt =>
      obtain ⟨htiny, hcfs, -, -⟩ := rq.dequeueTaskRt_frame p f
      exact .inl (h.congr htiny hcfs (fun x => (rq.dequeueTaskRt_se p f x).1)
        fun _ x _ => (rq.dequeueTaskRt_se p f x).2)
  | fair =>
      cases hon : (rq.tasks p).seOnRq with
      | true => exact .inr ⟨rfl, h.dequeue hon⟩
      | false => exact .inl (by rw [h.dequeue_alone trivial hon]; exact h)
  | idle => exact .inl h

/-- `yield_task` and the fair queues: nothing, or the donor goes to the end of its bucket. -/
theorem FairQueues.yieldTask (h : FairQueues (fun _ => True) rq q) :
    FairQueues (fun _ => True) rq.yieldTask q ∨
      (rq.tasks rq.donor).seOnRq = true ∧ FairQueues (fun _ => True) rq.yieldTask
        (Function.update q (rq.tinyPrio rq.donor)
          ((q (rq.tinyPrio rq.donor)).erase rq.donor ++ [rq.donor])) := by
  unfold Rq.yieldTask
  cases hc : (rq.tasks rq.donor).schedClass with
  | rt =>
      obtain ⟨htasks, htiny, hcfs, -, -⟩ := rq.yieldTaskRt_frame
      refine .inl (h.congr htiny hcfs (fun x => by rw [htasks]) fun b x _ => ?_)
      rw [Rq.tinyPrio, Rq.tinyPrio, htasks]
  | fair =>
      cases hon : (rq.tasks rq.donor).seOnRq with
      | true => exact .inr ⟨rfl, h.yield hon⟩
      | false => exact .inl (by rw [h.yield_alone trivial hon]; exact h)
  | idle => exact .inl h

end FairSide

section RtSide

variable {r : Fin MAX_RT_PRIO → List Pid}

/-- `enqueue_task` and the real-time queues. -/
theorem RtQueues.enqueueTask (h : RtQueues rq r)
    (hprio : (rq.tasks p).schedClass = .rt → (rq.tasks p).prio < MAX_RT_PRIO) :
    ∃ r', RtQueues (rq.enqueueTask p f) r' := by
  unfold Rq.enqueueTask
  cases hc : (rq.tasks p).schedClass with
  | rt =>
      cases hon : (rq.tasks p).rtOnRq with
      | true => exact ⟨r, by rw [RtQueues.enqueue_queued hon]; exact h⟩
      | false => exact ⟨_, h.enqueue hon (hprio hc)⟩
  | fair =>
      exact ⟨r,
        h.congr (rq.enqueueTaskFair_frame p f).1 (fun x => (rq.enqueueTaskFair_rt p f x).1)
        fun _ x _ => (rq.enqueueTaskFair_rt p f x).2⟩
  | idle => exact ⟨r, h⟩

/-- `dequeue_task` and the real-time queues. -/
theorem RtQueues.dequeueTask (h : RtQueues rq r) : ∃ r', RtQueues (rq.dequeueTask p f) r' := by
  unfold Rq.dequeueTask
  cases hc : (rq.tasks p).schedClass with
  | rt =>
      cases hon : (rq.tasks p).rtOnRq with
      | true => exact ⟨_, h.dequeue hon (h.prio_lt hon)⟩
      | false => exact ⟨r, by rw [RtQueues.dequeue_alone hon]; exact h⟩
  | fair =>
      exact ⟨r,
        h.congr (rq.dequeueTaskFair_frame p f).1 (fun x => (rq.dequeueTaskFair_rt p f x).1)
        fun _ x _ => (rq.dequeueTaskFair_rt p f x).2⟩
  | idle => exact ⟨r, h⟩

/-- `yield_task` and the real-time queues. -/
theorem RtQueues.yieldTask (h : RtQueues rq r) : ∃ r', RtQueues rq.yieldTask r' := by
  unfold Rq.yieldTask
  cases hc : (rq.tasks rq.donor).schedClass with
  | rt =>
      cases hon : (rq.tasks rq.donor).rtOnRq with
      | true => exact ⟨_, h.yield hon (h.prio_lt hon)⟩
      | false => exact ⟨r, by rw [RtQueues.yield_alone hon]; exact h⟩
  | fair =>
      obtain ⟨htasks, hframe, -, -, -⟩ := rq.yieldTaskFair_frame
      exact ⟨r, h.congr hframe (fun x => by rw [htasks]) fun i x _ => by rw [htasks]⟩
  | idle => exact ⟨r, h⟩

end RtSide

/-- The queues of both classes agree with the marks of the tasks. -/
structure Queues (rq : Rq) : Prop where
  fair : ∃ q, FairQueues (fun _ => True) rq q
  rt : ∃ q, RtQueues rq q

namespace Queues

/-- A change of one task that the classes do not notice. -/
theorem modTask (h : Queues rq) {g : TaskStruct → TaskStruct}
    (hse : (g (rq.tasks p)).seOnRq = (rq.tasks p).seOnRq)
    (hrt : (g (rq.tasks p)).rtOnRq = (rq.tasks p).rtOnRq)
    (hbucket : (rq.tasks p).seOnRq = true → tinyPrioOf (g (rq.tasks p)) = rq.tinyPrio p)
    (hprio : (rq.tasks p).rtOnRq = true → (g (rq.tasks p)).prio = (rq.tasks p).prio) :
    Queues (rq.modTask p g) := by
  obtain ⟨⟨q, hq⟩, r, hr⟩ := h
  exact ⟨⟨q, hq.modTask hse hbucket⟩, r, hr.modTask hrt hprio⟩

/-- The queues do not depend on the donor and the mark for a reschedule. -/
theorem congr (h : Queues rq) (htasks : rq'.tasks = rq.tasks) (htiny : rq'.tiny = rq.tiny)
    (hcfs : rq'.cfs = rq.cfs) (hrt : rq'.rt = rq.rt) : Queues rq' := by
  obtain ⟨⟨q, hq⟩, r, hr⟩ := h
  refine ⟨⟨q, hq.congr htiny hcfs (fun p => ?_) fun b p _ => ?_⟩, r,
    hr.congr hrt (fun p => ?_) fun i p _ => ?_⟩
  · rw [htasks]
  · rw [Rq.tinyPrio, Rq.tinyPrio, htasks]
  · rw [htasks]
  · rw [htasks]

/-- `enqueue_task`, for a real-time task with a priority in range. -/
theorem enqueueTask (h : Queues rq)
    (hprio : (rq.tasks p).schedClass = .rt → (rq.tasks p).prio < MAX_RT_PRIO) :
    Queues (rq.enqueueTask p f) := by
  obtain ⟨⟨q, hq⟩, r, hr⟩ := h
  refine ⟨?_, hr.enqueueTask hprio⟩
  rcases hq.enqueueTask with hq' | ⟨-, hq'⟩
  · exact ⟨_, hq'⟩
  · exact ⟨_, hq'⟩

/-- `dequeue_task`. -/
theorem dequeueTask (h : Queues rq) : Queues (rq.dequeueTask p f) := by
  obtain ⟨⟨q, hq⟩, r, hr⟩ := h
  refine ⟨?_, hr.dequeueTask⟩
  rcases hq.dequeueTask with hq' | ⟨-, hq'⟩
  · exact ⟨_, hq'⟩
  · exact ⟨_, hq'⟩

/-- `yield_task`. -/
theorem yieldTask (h : Queues rq) : Queues rq.yieldTask := by
  obtain ⟨⟨q, hq⟩, r, hr⟩ := h
  refine ⟨?_, hr.yieldTask⟩
  rcases hq.yieldTask with hq' | ⟨-, hq'⟩
  · exact ⟨_, hq'⟩
  · exact ⟨_, hq'⟩

/-- The fair task with the best bucket, as `higher_prio_task_fair` finds it. -/
theorem higherPrioTaskFair_iff (h : Queues rq) :
    rq.higherPrioTaskFair p = true ↔
      ∃ x, (rq.tasks x).seOnRq = true ∧ rq.tinyPrio x < rq.tinyPrio p := by
  obtain ⟨⟨q, hq⟩, -⟩ := h
  rw [Rq.higherPrioTaskFair, decide_eq_true_iff]
  constructor
  · intro hlt
    obtain ⟨hsize, -⟩ | ⟨hb, hset, -⟩ := findFirstBit_cases rq.tiny.active NR_TINY_PRIO
    · have := (rq.tinyPrio p).isLt
      omega
    · obtain ⟨x, l, hx⟩ := List.exists_cons_of_ne_nil ((hq.active ⟨_, hb⟩).mp hset)
      have hm : x ∈ q ⟨_, hb⟩ := by simp [hx]
      refine ⟨x, (hq.onRq x).mpr ⟨_, hm⟩, ?_⟩
      rw [hq.bucket hm]
      exact hlt
  · rintro ⟨x, hon, hlt⟩
    have hset := (hq.active _).mpr (List.ne_nil_of_mem (hq.mem hon))
    obtain ⟨hsize, hclear⟩ | ⟨-, -, hmin⟩ := findFirstBit_cases rq.tiny.active NR_TINY_PRIO
    · rw [hclear _ (rq.tinyPrio x).isLt] at hset
      cases hset
    · by_contra hge
      rw [hmin (rq.tinyPrio x) (by have := Fin.lt_def.mp hlt; omega)] at hset
      cases hset

/-- The best real-time task, as `highest_prio.curr` gives it. -/
theorem highestPrioCurr_lt_iff (h : Queues rq) {k : Nat} (hk : k < MAX_RT_PRIO) :
    rq.rt.highestPrioCurr < k ↔ ∃ x, (rq.tasks x).rtOnRq = true ∧ (rq.tasks x).prio < k := by
  obtain ⟨-, r, hr⟩ := h
  rcases hr.highest with ⟨i, heq, hne, hmin⟩ | ⟨heq, hall⟩
  · rw [heq]
    constructor
    · intro hlt
      obtain ⟨x, l, hx⟩ := List.exists_cons_of_ne_nil hne
      have hm : x ∈ r i := by simp [hx]
      exact ⟨x, (hr.onRq x).mpr ⟨i, hm⟩, by rw [hr.prio hm]; exact hlt⟩
    · rintro ⟨x, hon, hlt⟩
      obtain ⟨j, hm⟩ := (hr.onRq x).mp hon
      rw [hr.prio hm] at hlt
      by_contra hge
      have hji : j < i := Fin.lt_def.mpr (by omega)
      rw [hmin j hji] at hm
      cases hm
  · rw [heq]
    refine iff_of_false (by omega) ?_
    rintro ⟨x, hon, -⟩
    obtain ⟨j, hm⟩ := (hr.onRq x).mp hon
    rw [hall j] at hm
    cases hm

end Queues

/-! ### Marks, classes and the donor -/

/-- The marks of a task follow from whether it is queued and from its class, and its class from
its priority; the idle task is queued nowhere. -/
structure Marked (rq : Rq) : Prop extends Queues rq where
  rtOnRq : ∀ p, (rq.tasks p).rtOnRq = true ↔ (rq.tasks p).onRq = true ∧
    (rq.tasks p).schedClass = .rt
  seOnRq : ∀ p, (rq.tasks p).seOnRq = true ↔
    (rq.tasks p).onRq = true ∧ (rq.tasks p).schedClass = .fair
  schedClass : ∀ p, p ≠ 0 → (rq.tasks p).schedClass = Rq.classOf (rq.tasks p).prio
  idle : (rq.tasks 0).schedClass = .idle ∧ (rq.tasks 0).onRq = false

/-- The donor is queued, or it is the idle task. -/
structure Wired (rq : Rq) : Prop extends Marked rq where
  donor : rq.donor = 0 ∨ (rq.tasks rq.donor).onRq = true

/-- No queued task outranks the donor, and the idle task runs only if none is queued. -/
structure Settled (rq : Rq) : Prop where
  none : ∀ p, ¬Outranks rq p
  idle : rq.donor = 0 → ∀ p, (rq.tasks p).onRq = false

/-- The state between two steps: sound queues, and a settled donor unless a reschedule is
pending. -/
structure Sound (rq : Rq) : Prop extends Wired rq where
  settled : rq.needResched = false → Settled rq

theorem Sound.noneWaits (h : Sound rq) : NoneWaits rq := fun hr => (h.settled hr).none

namespace Marked

/-- A real-time task has a priority in range. -/
theorem prio_lt (h : Marked rq) (hc : (rq.tasks p).schedClass = .rt) :
    (rq.tasks p).prio < MAX_RT_PRIO := by
  have hp : p ≠ 0 := by
    rintro rfl
    rw [h.idle.1] at hc
    cases hc
  rw [h.schedClass p hp, Rq.classOf] at hc
  by_contra hge
  rw [if_neg hge] at hc
  cases hc

/-- A fair task has a priority above the real-time ones. -/
theorem le_prio (h : Marked rq) (hc : (rq.tasks p).schedClass = .fair) :
    MAX_RT_PRIO ≤ (rq.tasks p).prio := by
  have hp : p ≠ 0 := by
    rintro rfl
    rw [h.idle.1] at hc
    cases hc
  rw [h.schedClass p hp, Rq.classOf] at hc
  by_contra hge
  rw [if_pos (by omega)] at hc
  cases hc

/-- A queued task is a real-time or a fair task. -/
theorem queued_class (h : Marked rq) (hon : (rq.tasks p).onRq = true) :
    p ≠ 0 ∧ ((rq.tasks p).schedClass = .rt ∨ (rq.tasks p).schedClass = .fair) := by
  have hp : p ≠ 0 := by
    rintro rfl
    rw [h.idle.2] at hon
    cases hon
  refine ⟨hp, ?_⟩
  rw [h.schedClass p hp, Rq.classOf]
  split
  · exact .inl rfl
  · exact .inr rfl

end Marked

/-- The tasks are the same but for their slices. -/
def SameTasks (rq rq' : Rq) : Prop :=
  ∀ x, rq'.tasks x = { rq.tasks x with slice := (rq'.tasks x).slice }

namespace SameTasks

theorem refl (rq : Rq) : SameTasks rq rq := fun _ => rfl

/-- A change of the slice of one task. -/
theorem slice (rq : Rq) (p : Pid) (g : TaskStruct → Nat) :
    SameTasks rq (rq.modTask p fun T => { T with slice := g T }) := by
  intro x
  by_cases hx : x = p
  · subst hx
    simp
  · rw [Rq.modTask_tasks_of_ne _ _ _ hx]

/-- The state does not depend on the slices. -/
theorem wired (h : SameTasks rq rq') (hw : Marked rq) (hq : Queues rq')
    (hdonor : rq'.donor = 0 ∨ (rq.tasks rq'.donor).onRq = true) : Wired rq' where
  toQueues := hq
  rtOnRq x := by rw [h x]; exact hw.rtOnRq x
  seOnRq x := by rw [h x]; exact hw.seOnRq x
  schedClass x hx := by rw [h x]; exact hw.schedClass x hx
  idle := by rw [h 0]; exact hw.idle
  donor := by rw [h rq'.donor]; exact hdonor

/-- Who outranks whom does not depend on the slices. -/
theorem outranks (h : SameTasks rq rq') (hdonor : rq'.donor = rq.donor) :
    Outranks rq' p ↔ Outranks rq p := by
  have hbucket (x : Pid) : rq'.tinyPrio x = rq.tinyPrio x := by
    rw [Rq.tinyPrio, h x]
    rfl
  rw [Outranks, Outranks, hbucket, hbucket, hdonor, h p, h rq.donor]

theorem settled (h : SameTasks rq rq') (hdonor : rq'.donor = rq.donor) (hs : Settled rq) :
    Settled rq' where
  none p := by rw [h.outranks hdonor]; exact hs.none p
  idle hd x := by rw [h x]; exact hs.idle (hdonor ▸ hd) x

end SameTasks

/-- A request for a reschedule keeps the queues and the marks. -/
theorem Wired.reschedCurr (h : Wired rq) : Wired rq.reschedCurr :=
  SameTasks.wired (fun _ => rfl) h.toMarked (h.toQueues.congr rfl rfl rfl rfl) h.donor

/-- A donor of the fair class is queued there. -/
theorem Wired.fair_donor (h : Wired rq) (hc : (rq.tasks rq.donor).schedClass = .fair) :
    (rq.tasks rq.donor).seOnRq = true := by
  have hd0 : rq.donor ≠ 0 := by
    intro h0
    rw [h0, h.idle.1] at hc
    cases hc
  exact (h.seOnRq _).mpr ⟨h.donor.resolve_left hd0, hc⟩

/-- `set_next_task` changes a slice at most. -/
theorem Rq.setNextTask_same (rq : Rq) (p : Pid) : SameTasks rq (rq.setNextTask p) ∧
    (rq.setNextTask p).donor = rq.donor ∧ (rq.setNextTask p).needResched = rq.needResched := by
  unfold Rq.setNextTask
  split
  · exact ⟨.slice rq p _, rfl, rfl⟩
  · exact ⟨.refl rq, rfl, rfl⟩

theorem Queues.setNextTask (h : Queues rq) : Queues (rq.setNextTask p) := by
  unfold Rq.setNextTask
  split
  · exact h.modTask rfl rfl (fun _ => rfl) fun _ => rfl
  · exact h

/-! ### Picks -/

/-- A pick of a task that no queued task outranks. -/
theorem Marked.pick_of (h : Marked rq) (hnext : rq.pickNextTask = some p)
    (hp : p = 0 ∨ (rq.tasks p).onRq = true) (hset : Settled { rq with donor := p }) :
    ∃ rq', rq.pick = some rq' ∧ Wired rq' ∧ rq'.needResched = false ∧ Settled rq' := by
  have hw : Wired { rq with needResched := false, donor := p } :=
    SameTasks.wired (fun _ => rfl) h (h.toQueues.congr rfl rfl rfl rfl) hp
  have hset' : Settled { rq with needResched := false, donor := p } := ⟨hset.none, hset.idle⟩
  refine ⟨_, by rw [Rq.pick, hnext]; rfl, ?_⟩
  dsimp only
  split
  · next heq =>
    subst heq
    exact ⟨hw, rfl, hset'⟩
  · obtain ⟨hsame, hdonor, hresched⟩ :=
      Rq.setNextTask_same { rq with needResched := false, donor := p } p
    refine ⟨hsame.wired hw.toMarked hw.toQueues.setNextTask (by rw [hdonor]; exact hp),
      hresched, ?_⟩
    exact hsame.settled hdonor hset'

/-- **A pick settles the donor**: it finds a task, and no queued task outranks it. -/
theorem Marked.pick (h : Marked rq) :
    ∃ rq', rq.pick = some rq' ∧ Wired rq' ∧ rq'.needResched = false ∧ Settled rq' := by
  obtain ⟨q, hq⟩ := h.fair
  obtain ⟨r, hr⟩ := h.rt
  cases hrt : rq.pickTaskRt with
  | some n =>
      obtain ⟨i, p, l, rfl, hi, hmin⟩ := hr.pick_some hrt
      have hm : p ∈ r i := by simp [hi]
      obtain ⟨hon, hc⟩ := (h.rtOnRq p).mp ((hr.onRq p).mpr ⟨i, hm⟩)
      refine h.pick_of (p := p) (by rw [Rq.pickNextTask, hrt]) (.inr hon) ⟨fun x hx => ?_, ?_⟩
      · rcases hx with ⟨hon', hcls | hlt⟩ | ⟨-, hcls, -⟩
        · exact hcls hc
        · obtain ⟨j, hj⟩ := (hr.onRq x).mp hon'
          have hlt' : (rq.tasks x).prio < (rq.tasks p).prio := hlt
          rw [hr.prio hj, hr.prio hm] at hlt'
          rw [hmin j hlt'] at hj
          cases hj
        · have hcls' : (rq.tasks p).schedClass = .fair := hcls
          rw [hc] at hcls'
          cases hcls'
      · intro hp
        exact absurd hp (h.queued_class hon).1
  | none =>
      have hnort (x : Pid) : (rq.tasks x).rtOnRq = false := by
        by_contra hon
        obtain ⟨i, hm⟩ := (hr.onRq x).mp (by simpa using hon)
        rw [(hr.pick_none.mp hrt) i] at hm
        cases hm
      cases hfair : rq.pickTaskFair with
      | some n =>
          obtain ⟨b, p, l, rfl, hb, hmin⟩ := hq.pick_some hfair
          have hm : p ∈ q b := by simp [hb]
          obtain ⟨hon, hc⟩ := (h.seOnRq p).mp ((hq.onRq p).mpr ⟨b, hm⟩)
          refine h.pick_of (p := p) (by rw [Rq.pickNextTask, hrt, hfair]) (.inr hon)
            ⟨fun x hx => ?_, ?_⟩
          · rcases hx with ⟨hon', -⟩ | ⟨hon', -, hlt⟩
            · rw [show ({ rq with donor := p } : Rq).tasks x = rq.tasks x from rfl,
                hnort x] at hon'
              cases hon'
            · obtain ⟨b', hb'⟩ := (hq.onRq x).mp hon'
              have hlt' : rq.tinyPrio x < rq.tinyPrio p := hlt
              rw [hq.bucket hb', hq.bucket hm] at hlt'
              rw [hmin b' hlt'] at hb'
              cases hb'
          · intro hp
            exact absurd hp (h.queued_class hon).1
      | none =>
          have hnofair (x : Pid) : (rq.tasks x).seOnRq = false := by
            by_contra hon
            obtain ⟨b, hm⟩ := (hq.onRq x).mp (by simpa using hon)
            rw [(hq.pick_none.mp hfair) b] at hm
            cases hm
          have hnone (x : Pid) : (rq.tasks x).onRq = false := by
            by_contra hon
            have hon' : (rq.tasks x).onRq = true := by simpa using hon
            rcases (h.queued_class hon').2 with hc | hc
            · have := (h.rtOnRq x).mpr ⟨hon', hc⟩
              rw [hnort x] at this
              cases this
            · have := (h.seOnRq x).mpr ⟨hon', hc⟩
              rw [hnofair x] at this
              cases this
          refine h.pick_of (p := 0) (by rw [Rq.pickNextTask, hrt, hfair]) (.inl rfl)
            ⟨fun x hx => ?_, fun _ => hnone⟩
          rcases hx with ⟨hon', -⟩ | ⟨hon', -, -⟩
          · rw [show ({ rq with donor := 0 } : Rq).tasks x = rq.tasks x from rfl,
              hnort x] at hon'
            cases hon'
          · rw [show ({ rq with donor := 0 } : Rq).tasks x = rq.tasks x from rfl,
              hnofair x] at hon'
            cases hon'

/-! ### The tasks under the steps -/

/-- `enqueue_task` sets the mark of the class of the task. -/
theorem Rq.enqueueTask_tasks (rq : Rq) (p : Pid) (f : Flags) : (rq.enqueueTask p f).tasks =
    Function.update rq.tasks p { rq.tasks p with
      rtOnRq := (rq.tasks p).rtOnRq || decide ((rq.tasks p).schedClass = .rt)
      seOnRq := (rq.tasks p).seOnRq || decide ((rq.tasks p).schedClass = .fair) } := by
  unfold Rq.enqueueTask
  cases hc : (rq.tasks p).schedClass with
  | rt => simp [Rq.enqueueTaskRt_tasks, hc]
  | fair => simp [Rq.enqueueTaskFair_tasks, hc]
  | idle =>
      simp only [reduceCtorEq, decide_false, Bool.or_false]
      exact (Function.update_eq_self p rq.tasks).symm

/-- `dequeue_task` clears the mark of the class of the task. -/
theorem Rq.dequeueTask_tasks (rq : Rq) (p : Pid) (f : Flags) : (rq.dequeueTask p f).tasks =
    Function.update rq.tasks p { rq.tasks p with
      rtOnRq := (rq.tasks p).rtOnRq && decide ((rq.tasks p).schedClass ≠ .rt)
      seOnRq := (rq.tasks p).seOnRq && decide ((rq.tasks p).schedClass ≠ .fair) } := by
  unfold Rq.dequeueTask
  cases hc : (rq.tasks p).schedClass with
  | rt => simp [Rq.dequeueTaskRt_tasks, hc]
  | fair => simp [Rq.dequeueTaskFair_tasks, hc]
  | idle =>
      simp only [ne_eq, reduceCtorEq, not_false_eq_true, decide_true, Bool.and_true]
      exact (Function.update_eq_self p rq.tasks).symm

theorem Rq.enqueueTask_frame (rq : Rq) (p : Pid) (f : Flags) :
    (rq.enqueueTask p f).donor = rq.donor ∧ (rq.enqueueTask p f).needResched =
      rq.needResched := by
  unfold Rq.enqueueTask
  split
  · exact (rq.enqueueTaskRt_frame p f).2.2
  · exact (rq.enqueueTaskFair_frame p f).2
  · exact ⟨rfl, rfl⟩

theorem Rq.dequeueTask_frame (rq : Rq) (p : Pid) (f : Flags) :
    (rq.dequeueTask p f).donor = rq.donor ∧ (rq.dequeueTask p f).needResched =
      rq.needResched := by
  unfold Rq.dequeueTask
  split
  · exact (rq.dequeueTaskRt_frame p f).2.2
  · exact (rq.dequeueTaskFair_frame p f).2
  · exact ⟨rfl, rfl⟩

/-- A task whose marks are those of its class, among tasks that did not change. -/
theorem Marked.update (h : Marked rq) (hp : p ≠ 0) (hq : Queues rq')
    (hother : ∀ x, x ≠ p → rq'.tasks x = rq.tasks x)
    (hrt : (rq'.tasks p).rtOnRq = true ↔
      (rq'.tasks p).onRq = true ∧ (rq'.tasks p).schedClass = .rt)
    (hse : (rq'.tasks p).seOnRq = true ↔
      (rq'.tasks p).onRq = true ∧ (rq'.tasks p).schedClass = .fair)
    (hcls : (rq'.tasks p).schedClass = Rq.classOf (rq'.tasks p).prio) : Marked rq' where
  toQueues := hq
  rtOnRq x := by
    by_cases hx : x = p
    · exact hx ▸ hrt
    · rw [hother x hx]
      exact h.rtOnRq x
  seOnRq x := by
    by_cases hx : x = p
    · exact hx ▸ hse
    · rw [hother x hx]
      exact h.seOnRq x
  schedClass x hx₀ := by
    by_cases hx : x = p
    · exact hx ▸ hcls
    · rw [hother x hx]
      exact h.schedClass x hx₀
  idle := by
    rw [hother 0 hp.symm]
    exact h.idle

/-- The marks of a task that is not queued are clear. -/
theorem Marked.alone (h : Marked rq) (hon : (rq.tasks p).onRq = false) :
    (rq.tasks p).rtOnRq = false ∧ (rq.tasks p).seOnRq = false := by
  constructor
  · by_contra hc
    have := (h.rtOnRq p).mp (by simpa using hc)
    rw [hon] at this
    cases this.1
  · by_contra hc
    have := (h.seOnRq p).mp (by simpa using hc)
    rw [hon] at this
    cases this.1

/-- `dequeue_task` leaves a queued task without a mark. -/
theorem Marked.dequeueTask_self (h : Marked rq) :
    (rq.dequeueTask p f).tasks p = { rq.tasks p with rtOnRq := false, seOnRq := false } := by
  rw [Rq.dequeueTask_tasks, Function.update_self]
  have hrt : ((rq.tasks p).rtOnRq && decide ((rq.tasks p).schedClass ≠ .rt)) = false := by
    cases hm : (rq.tasks p).rtOnRq with
    | false => rfl
    | true => simp [((h.rtOnRq p).mp hm).2]
  have hse : ((rq.tasks p).seOnRq && decide ((rq.tasks p).schedClass ≠ .fair)) = false := by
    cases hm : (rq.tasks p).seOnRq with
    | false => rfl
    | true => simp [((h.seOnRq p).mp hm).2]
  rw [hrt, hse]

/-- A task without a mark may be given any parameters. -/
theorem Queues.setParams (h : Queues rq) (hrt : (rq.tasks p).rtOnRq = false)
    (hse : (rq.tasks p).seOnRq = false) (policy : Policy) (staticPrio : Int) (prio : Nat) :
    Queues (rq.setParams p policy staticPrio prio) :=
  h.modTask rfl rfl (fun hon => by rw [hse] at hon; cases hon) fun hon => by
    rw [hrt] at hon
    cases hon

/-- The task with new parameters, and the marks of its new class if it is queued. -/
def TaskStruct.changed (T : TaskStruct) (policy : Policy) (staticPrio : Int) (prio : Nat) :
    TaskStruct :=
  { T with
    policy := policy
    staticPrio := staticPrio
    prio := prio
    schedClass := Rq.classOf prio
    rtOnRq := T.onRq && decide (Rq.classOf prio = .rt)
    seOnRq := T.onRq && decide (Rq.classOf prio = .fair) }

/-- A bracket changes its task only, and gives it the marks of its new class. -/
theorem Marked.requeueTask (h : Marked rq) (hp : p ≠ 0) (policy : Policy) (staticPrio : Int)
    (prio : Nat) :
    Marked (rq.requeueTask p policy staticPrio prio) ∧
      (∀ x, x ≠ p → (rq.requeueTask p policy staticPrio prio).tasks x = rq.tasks x) ∧
      (rq.requeueTask p policy staticPrio prio).tasks p =
        (rq.tasks p).changed policy staticPrio prio ∧
      (rq.requeueTask p policy staticPrio prio).donor = rq.donor ∧
      (rq.requeueTask p policy staticPrio prio).needResched = rq.needResched := by
  obtain ⟨hq, hother, hself, hframe⟩ : Queues (rq.requeueTask p policy staticPrio prio) ∧
      (∀ x, x ≠ p → (rq.requeueTask p policy staticPrio prio).tasks x = rq.tasks x) ∧
      (rq.requeueTask p policy staticPrio prio).tasks p =
        (rq.tasks p).changed policy staticPrio prio ∧
      (rq.requeueTask p policy staticPrio prio).donor = rq.donor ∧
      (rq.requeueTask p policy staticPrio prio).needResched = rq.needResched := by
    rw [Rq.requeueTask]
    cases hon : (rq.tasks p).onRq with
    | false =>
        obtain ⟨hrt, hse⟩ := h.alone hon
        rw [if_neg (by decide)]
        refine ⟨h.toQueues.setParams hrt hse policy staticPrio prio, fun x hx => ?_, ?_,
          rfl, rfl⟩
        · exact Rq.modTask_tasks_of_ne _ _ _ hx
        · simp [Rq.setParams, TaskStruct.changed, hrt, hse, hon]
    | true =>
        have hdeq := h.dequeueTask_self (p := p) (f := { restore := true, move := true })
        obtain ⟨hd₁, hr₁⟩ := rq.dequeueTask_frame p { restore := true, move := true }
        rw [if_pos rfl]
        obtain ⟨rq₁, hrq₁⟩ : ∃ rq₁,
          rq₁ = (rq.dequeueTask p { restore := true, move := true }).setParams
          p policy staticPrio prio := ⟨_, rfl⟩
        have hself₁ : rq₁.tasks p = { rq.tasks p with
            policy := policy, staticPrio := staticPrio, prio := prio, schedClass :=
              Rq.classOf prio
            rtOnRq := false, seOnRq := false } := by
          rw [hrq₁, Rq.setParams, Rq.modTask_tasks_self, hdeq]
        have hq₁ : Queues rq₁ := by
          rw [hrq₁]
          refine Queues.setParams h.toQueues.dequeueTask ?_ ?_ policy staticPrio prio
          · rw [hdeq]
          · rw [hdeq]
        obtain ⟨hd₂, hr₂⟩ := rq₁.enqueueTask_frame p { restore := true, move := true }
        rw [← hrq₁]
        refine ⟨hq₁.enqueueTask fun hc => ?_, fun x hx => ?_, ?_, ?_, ?_⟩
        · rw [hself₁] at hc ⊢
          by_contra hge
          simp only [Rq.classOf, if_neg hge] at hc
          cases hc
        · rw [Rq.enqueueTask_tasks, Function.update_of_ne hx, hrq₁, Rq.setParams,
            Rq.modTask_tasks_of_ne _ _ _ hx, Rq.dequeueTask_tasks, Function.update_of_ne hx]
        · rw [Rq.enqueueTask_tasks, Function.update_self, hself₁]
          simp [TaskStruct.changed, hon]
        · rw [hd₂, hrq₁]
          exact hd₁
        · rw [hr₂, hrq₁]
          exact hr₁
  refine ⟨h.update hp hq hother ?_ ?_ ?_, hother, hself, hframe⟩
  · rw [hself]
    simp [TaskStruct.changed]
  · rw [hself]
    simp [TaskStruct.changed]
  · rw [hself]
    rfl

/-- The whole bracket, up to the slice of its task. -/
theorem Wired.bracketTask (h : Wired rq) (hp : p ≠ 0) (policy : Policy) (staticPrio : Int)
    (prio : Nat) :
    Wired (rq.bracketTask p policy staticPrio prio) ∧
      (∀ x, x ≠ p → (rq.bracketTask p policy staticPrio prio).tasks x = { rq.tasks x with
        slice := ((rq.bracketTask p policy staticPrio prio).tasks x).slice }) ∧
      (rq.bracketTask p policy staticPrio prio).tasks p =
        { (rq.tasks p).changed policy staticPrio prio with
          slice := ((rq.bracketTask p policy staticPrio prio).tasks p).slice } ∧
      (rq.bracketTask p policy staticPrio prio).donor = rq.donor ∧
      (rq.bracketTask p policy staticPrio prio).needResched = rq.needResched := by
  obtain ⟨hm, hother, hself, hdonor, hres⟩ := h.toMarked.requeueTask hp policy staticPrio prio
  obtain ⟨rq₁, hrq₁⟩ : ∃ rq₁, rq₁ = rq.requeueTask p policy staticPrio prio := ⟨_, rfl⟩
  rw [← hrq₁] at hm hother hself hdonor hres
  have hd : rq₁.donor = 0 ∨ (rq₁.tasks rq₁.donor).onRq = true := by
    rw [hdonor]
    refine h.donor.imp_right fun hon => ?_
    by_cases hdp : rq.donor = p
    · rw [hdp, hself]
      rw [hdp] at hon
      exact hon
    · rw [hother _ hdp]
      exact hon
  -- `set_next_task` changes a slice at most
  obtain ⟨rq₂, hrq₂, hq₂, hsame, hd₂, hr₂⟩ : ∃ rq₂,
      rq.bracketTask p policy staticPrio prio = rq₂ ∧ Queues rq₂ ∧ SameTasks rq₁ rq₂ ∧
        rq₂.donor = rq₁.donor ∧ rq₂.needResched = rq₁.needResched := by
    rw [Rq.bracketTask, ← hrq₁]
    split
    · exact ⟨_, rfl, hm.toQueues.setNextTask, rq₁.setNextTask_same p⟩
    · exact ⟨_, rfl, hm.toQueues, .refl _, rfl, rfl⟩
  rw [hrq₂]
  refine ⟨hsame.wired hm hq₂ (by rw [hd₂]; exact hd), fun x hx => ?_, ?_, hd₂.trans hdonor,
    hr₂.trans hres⟩
  · rw [← hother x hx]
    exact hsame x
  · rw [← hself]
    exact hsame p

/-! ### Reports of a change -/

/-- The report of a change leaves the state as it is or asks for a reschedule. -/
theorem Rq.reportChange_cases (rq : Rq) (p : Pid) (c : SchedClass) :
    rq.reportChange p c = rq ∨ rq.reportChange p c = rq.reschedCurr := by
  unfold Rq.reportChange Rq.prioChangedRt Rq.switchedToRt Rq.prioChangedFair Rq.switchedToFair
  repeat' split
  all_goals first
    | exact .inl rfl
    | exact .inr rfl

/-- When the report of a change of a queued task, from class `c`, asks for nothing. -/
def Quiet (rq : Rq) (p : Pid) (c : SchedClass) : Prop :=
  match (rq.tasks p).schedClass with
  | .rt =>
      if p = rq.donor then c = .rt → ¬rq.rt.highestPrioCurr < (rq.tasks p).prio
      else ¬(rq.tasks p).prio < (rq.tasks rq.donor).prio
  | .fair =>
      if p = rq.donor then rq.higherPrioTaskFair p = false
      else (rq.tasks rq.donor).schedClass = .fair → ¬rq.tinyPrio p < rq.tinyPrio rq.donor
  | .idle => True

/-- The report of a change of a queued task. -/
theorem Rq.reportChange_quiet (rq : Rq) (p : Pid) (c : SchedClass)
    (hon : (rq.tasks p).onRq = true) :
    (rq.reportChange p c).needResched = false ↔ rq.needResched = false ∧ Quiet rq p c := by
  unfold Rq.reportChange Quiet
  cases hc : (rq.tasks p).schedClass with
  | rt =>
      by_cases hcc : c = .rt
      · by_cases hd : p = rq.donor
        · subst hd
          simp only [hcc, if_true, Rq.prioChangedRt, hon]
          by_cases hlt : rq.rt.highestPrioCurr < (rq.tasks rq.donor).prio
          · simp [hlt, Rq.reschedCurr]
          · simp [hlt]
        · simp only [hcc, if_true, Rq.prioChangedRt, hon, hd]
          by_cases hlt : (rq.tasks p).prio < (rq.tasks rq.donor).prio
          · simp [hlt, Rq.reschedCurr]
          · simp [hlt]
      · simp only [hcc, if_false, Rq.switchedToRt, hon]
        by_cases hd : p = rq.donor
        · subst hd
          simp
        · by_cases hlt : (rq.tasks p).prio < (rq.tasks rq.donor).prio
          · simp [hlt, hd, Rq.reschedCurr]
          · simp [hlt, hd]
  | fair =>
      -- the two callbacks of the fair class have one body
      have hone : (if c = .fair then rq.prioChangedFair p else rq.switchedToFair p) =
          rq.prioChangedFair p := by
        split <;> rfl
      dsimp only
      rw [hone, Rq.prioChangedFair, hon]
      by_cases hd : p = rq.donor
      · subst hd
        by_cases hh : rq.higherPrioTaskFair rq.donor = true
        · simp [hh, Rq.reschedCurr]
        · simp [hh]
      · by_cases hf : (rq.tasks rq.donor).schedClass = .fair
        · by_cases hlt : rq.tinyPrio p < rq.tinyPrio rq.donor
          · simp [hd, hf, hlt, Rq.reschedCurr]
          · simp [hd, hf, hlt]
        · simp [hd, hf]
  | idle => simp

/-! ### Changes of a task -/

section Change

variable {policy : Policy} {staticPrio : Int} {prio : Nat}

/-- The class of new parameters. -/
theorem Rq.classOf_cases (prio : Nat) :
    (Rq.classOf prio = .rt ∧ prio < MAX_RT_PRIO) ∨
    (Rq.classOf prio = .fair ∧ MAX_RT_PRIO ≤ prio) := by
  unfold Rq.classOf
  split
  · next h => exact .inl ⟨rfl, h⟩
  · next h => exact .inr ⟨rfl, by omega⟩

/-- What a bracket does to the fields that decide who outranks whom: nothing to other tasks. -/
structure Changed (rq rq' : Rq) (p : Pid) (policy : Policy) (staticPrio : Int) (prio : Nat) :
    Prop where
  other : ∀ x, x ≠ p → rq'.tasks x = { rq.tasks x with slice := (rq'.tasks x).slice }
  self : rq'.tasks p = { (rq.tasks p).changed policy staticPrio prio with
    slice := (rq'.tasks p).slice }
  donor : rq'.donor = rq.donor

namespace Changed

variable (h : Changed rq rq' p policy staticPrio prio)
include h

theorem tinyPrio_other (hx : x ≠ p) : rq'.tinyPrio x = rq.tinyPrio x := by
  rw [Rq.tinyPrio, h.other x hx]
  rfl

theorem tinyPrio_self : rq'.tinyPrio p =
    tinyPrioOf { rq.tasks p with policy := policy, staticPrio := staticPrio } := by
  rw [Rq.tinyPrio, h.self]
  rfl

theorem schedClass_self : (rq'.tasks p).schedClass = Rq.classOf prio := by
  rw [h.self]
  rfl

/-- If the donor did not change, another task that outranks it did so before. -/
theorem outranks_other (hx : x ≠ p) (hd : rq.donor ≠ p) (hout : Outranks rq' x) :
    Outranks rq x := by
  rw [Outranks, h.donor, h.tinyPrio_other hx, h.tinyPrio_other hd, h.other x hx,
    h.other _ hd] at hout
  exact hout

/-- The tasks that are queued. -/
theorem onRq (x : Pid) : (rq'.tasks x).onRq = (rq.tasks x).onRq := by
  by_cases hx : x = p
  · subst hx
    rw [h.self]
    rfl
  · rw [h.other x hx]

end Changed

/-- A change of a task that is not queued changes nobody's rank. -/
theorem Changed.settled_alone (h : Changed rq rq' p policy staticPrio prio) (hw : Wired rq)
    (hp : p ≠ 0) (hon : (rq.tasks p).onRq = false) (hs : Settled rq) : Settled rq' where
  none x hout := by
    have hd : rq.donor ≠ p := by
      rintro hdp
      rcases hw.donor with h0 | hon'
      · exact hp (hdp ▸ h0)
      · rw [hdp, hon] at hon'
        cases hon'
    by_cases hx : x = p
    · subst hx
      rcases hout with ⟨hrt, -⟩ | ⟨hse, -⟩
      · rw [h.self] at hrt
        simp [TaskStruct.changed, hon] at hrt
      · rw [h.self] at hse
        simp [TaskStruct.changed, hon] at hse
    · exact hs.none x (h.outranks_other hx hd hout)
  idle hd x := by
    rw [h.onRq]
    exact hs.idle (h.donor ▸ hd) x

/-- A change of a queued task that the report finds nothing wrong with. -/
theorem Changed.settled_queued (h : Changed rq rq' p policy staticPrio prio) (hw : Wired rq)
    (hw' : Wired rq') (hon : (rq.tasks p).onRq = true) (hs : Settled rq)
    (hres : rq.needResched = false) (hquiet : Quiet rq' p (rq.tasks p).schedClass)
    (hst : ¬Strands rq (.change p policy staticPrio prio)) : Settled rq' := by
  have hd0 : rq.donor ≠ 0 := fun hd => by
    have := hs.idle hd p
    rw [hon] at this
    cases this
  have hdon : (rq.tasks rq.donor).onRq = true := hw.donor.resolve_left hd0
  refine ⟨fun x hout => ?_, fun hd => absurd (h.donor ▸ hd) hd0⟩
  have hcls := h.schedClass_self
  by_cases hdp : rq.donor = p
  · -- the donor itself was changed
    have hself' : rq'.donor = p := h.donor.trans hdp
    rw [Quiet, if_pos hself'.symm, if_pos hself'.symm, hcls] at hquiet
    have hold (hx : x ≠ p) (hrt : (rq'.tasks x).rtOnRq = true) :
      (rq.tasks x).rtOnRq = true := by
      rw [h.other x hx] at hrt
      exact hrt
    rcases Rq.classOf_cases prio with ⟨hc, hlt⟩ | ⟨hc, hge⟩
    · rw [hc] at hquiet hcls
      rcases hout with ⟨hrt, hne | hpr⟩ | ⟨-, hf, -⟩
      · exact hne (hself' ▸ hcls)
      · rw [hself'] at hpr
        have hx : x ≠ p := by
          rintro rfl
          exact Nat.lt_irrefl _ hpr
        rcases (hw.toMarked.queued_class hon).2 with hcold | hcold
        · have hk : (rq'.tasks p).prio < MAX_RT_PRIO := hw'.toMarked.prio_lt hcls
          exact hquiet hcold ((hw'.toQueues.highestPrioCurr_lt_iff hk).mpr ⟨x, hrt, hpr⟩)
        · refine hs.none x (.inl ⟨hold hx hrt, .inl ?_⟩)
          rw [hdp, hcold]
          decide
      · rw [hself', hcls] at hf
        cases hf
    · rw [hc] at hquiet hcls
      have hnone (y : Pid) (hse : (rq'.tasks y).seOnRq = true) :
        ¬rq'.tinyPrio y < rq'.tinyPrio p := by
        intro hlt
        have := (hw'.toQueues.higherPrioTaskFair_iff).mpr ⟨y, hse, hlt⟩
        rw [hquiet] at this
        cases this
      rcases hout with ⟨hrt, -⟩ | ⟨hse, -, hlt⟩
      · have hx : x ≠ p := by
          rintro rfl
          have := ((hw'.rtOnRq x).mp hrt).2
          rw [hcls] at this
          cases this
        rcases (hw.toMarked.queued_class hon).2 with hcold | hcold
        · refine hst ⟨hdp.symm, hcold, hge, hres, ⟨x, hx, hold hx hrt⟩, fun y hse hlt => ?_⟩
          have hy : y ≠ p := by
            rintro rfl
            have := ((hw.seOnRq y).mp hse).2
            rw [hcold] at this
            cases this
          refine hnone y ?_ ?_
          · rw [h.other y hy]
            exact hse
          · rw [h.tinyPrio_other hy, h.tinyPrio_self]
            exact hlt
        · refine hs.none x (.inl ⟨hold hx hrt, .inl ?_⟩)
          rw [hdp, hcold]
          decide
      · exact hnone x hse (hself' ▸ hlt)
  · by_cases hx : x = p
    · subst hx
      have hself' : ¬x = rq'.donor := fun hxd => hdp (hxd.trans h.donor).symm
      rw [Quiet, if_neg hself', if_neg hself', hcls] at hquiet
      have hdcls : (rq'.tasks rq'.donor).schedClass = .rt ∨
          (rq'.tasks rq'.donor).schedClass = .fair := by
        refine (hw'.toMarked.queued_class ?_).2
        rw [h.onRq, h.donor]
        exact hdon
      rcases hout with ⟨hrt, hout⟩ | ⟨hse, hf, hlt⟩
      · have hc := ((hw'.rtOnRq x).mp hrt).2
        have hlt := hw'.toMarked.prio_lt hc
        rw [← hcls, hc] at hquiet
        rcases hout with hne | hpr
        · have hge := hw'.toMarked.le_prio (hdcls.resolve_left hne)
          exact hquiet (by omega)
        · exact hquiet hpr
      · have hc := ((hw'.seOnRq x).mp hse).2
        rw [← hcls, hc] at hquiet
        exact hquiet hf hlt
    · exact hs.none x (h.outranks_other hx hdp hout)

/-- **A change that strands no real-time task** keeps the state sound. -/
theorem Sound.changeTask (h : Sound rq) (hp : p ≠ 0)
    (hst : ¬Strands rq (.change p policy staticPrio prio)) :
    Sound (rq.changeTask p policy staticPrio prio) := by
  obtain ⟨hw, hother, hself, hdonor, hres⟩ := h.toWired.bracketTask hp policy staticPrio prio
  have hch : Changed rq (rq.bracketTask p policy staticPrio prio) p policy staticPrio prio :=
    ⟨hother, hself, hdonor⟩
  rw [Rq.changeTask]
  obtain ⟨rq₁, hrq₁⟩ : ∃ rq₁, rq₁ = rq.bracketTask p policy staticPrio prio := ⟨_, rfl⟩
  rw [← hrq₁] at hw hch hres ⊢
  have hquiet : (rq₁.reportChange p (rq.tasks p).schedClass).needResched = false →
    Settled rq₁ := by
    intro hnr
    have hnr₁ : rq₁.needResched = false := by
      rcases rq₁.reportChange_cases p (rq.tasks p).schedClass with heq | heq
      · rwa [heq] at hnr
      · rw [heq] at hnr
        cases hnr
    have hset := h.settled (hres.symm.trans hnr₁)
    cases hon : (rq.tasks p).onRq with
    | false => exact hch.settled_alone h.toWired hp hon hset
    | true =>
        have hq := ((rq₁.reportChange_quiet p _ (by rw [hch.onRq]; exact hon)).mp hnr).2
        exact hch.settled_queued h.toWired hw hon hset (hres.symm.trans hnr₁) hq hst
  rcases rq₁.reportChange_cases p (rq.tasks p).schedClass with heq | heq
  · rw [heq] at hquiet ⊢
    exact ⟨hw, hquiet⟩
  · rw [heq]
    exact ⟨hw.reschedCurr, fun hnr => absurd hnr.symm Bool.false_ne_true⟩

/-- Every change keeps the queues and the marks. -/
theorem Wired.changeTask (h : Wired rq) (hp : p ≠ 0) :
    Wired (rq.changeTask p policy staticPrio prio) := by
  have hw := (h.bracketTask hp policy staticPrio prio).1
  rw [Rq.changeTask]
  rcases Rq.reportChange_cases (rq.bracketTask p policy staticPrio prio) p
    (rq.tasks p).schedClass with heq | heq
  · rw [heq]
    exact hw
  · rw [heq]
    exact hw.reschedCurr

/-- A stranding change leaves a real-time task waiting, with no reschedule pending. -/
theorem Strands.lost (h : Sound rq) (hp : p ≠ 0)
    (hst : Strands rq (.change p policy staticPrio prio)) :
    ¬NoneWaits (rq.changeTask p policy staticPrio prio) := by
  obtain ⟨hpd, hc, hge, hres, ⟨x, hx, hrt⟩, hfair⟩ := hst
  obtain ⟨hw, hother, hself, hdonor, hres'⟩ := h.toWired.bracketTask hp policy staticPrio prio
  have hch : Changed rq (rq.bracketTask p policy staticPrio prio) p policy staticPrio prio :=
    ⟨hother, hself, hdonor⟩
  rw [Rq.changeTask]
  obtain ⟨rq₁, hrq₁⟩ : ∃ rq₁, rq₁ = rq.bracketTask p policy staticPrio prio := ⟨_, rfl⟩
  rw [← hrq₁] at hw hch hres' ⊢
  have hself' : rq₁.donor = p := hch.donor.trans hpd.symm
  have hon : (rq.tasks p).onRq = true := by
    rw [hpd]
    refine h.donor.resolve_left fun hd => hp (hpd.trans hd)
  have hcls : (rq₁.tasks p).schedClass = .fair := by
    rw [hch.schedClass_self, Rq.classOf, if_neg (by omega)]
  have hhigh : rq₁.higherPrioTaskFair p = false := by
    by_contra hcon
    obtain ⟨y, hse, hlt⟩ := hw.toQueues.higherPrioTaskFair_iff.mp (by simpa using hcon)
    have hy : y ≠ p := by
      rintro rfl
      exact absurd hlt (lt_irrefl _)
    refine hfair y ?_ ?_
    · rw [hch.other y hy] at hse
      exact hse
    · rw [hch.tinyPrio_other hy, hch.tinyPrio_self] at hlt
      exact hlt
  have hquiet : Quiet rq₁ p (rq.tasks p).schedClass := by
    rw [Quiet, hcls]
    dsimp only
    rw [if_pos hself'.symm]
    exact hhigh
  have hnr :=
    (rq₁.reportChange_quiet p (rq.tasks p).schedClass (by rw [hch.onRq]; exact hon)).mpr
    ⟨hres'.trans hres, hquiet⟩
  have heq : rq₁.reportChange p (rq.tasks p).schedClass = rq₁ := by
    rcases rq₁.reportChange_cases p (rq.tasks p).schedClass with heq | heq
    · exact heq
    · rw [heq] at hnr
      cases hnr
  intro hnone
  refine hnone hnr x ?_
  rw [heq]
  refine .inl ⟨?_, .inl ?_⟩
  · rw [hch.other x hx]
    exact hrt
  · rw [hself', hcls]
    decide

end Change

/-! ### The other steps -/

/-- The mark for a reschedule, and what else a wake-up leaves alone. -/
theorem Rq.wakeupPreempt_cases (rq : Rq) (p : Pid) (f : Flags) :
    rq.wakeupPreempt p f = rq ∨ rq.wakeupPreempt p f = rq.reschedCurr := by
  unfold Rq.wakeupPreempt Rq.wakeupPreemptRt Rq.wakeupPreemptFair
  repeat' split
  all_goals first
    | exact .inl rfl
    | exact .inr rfl

/-- A wake-up that asks for nothing woke a task that does not outrank the donor. -/
theorem Rq.wakeupPreempt_quiet (hw : Marked rq)
    (hd : (rq.tasks rq.donor).schedClass = .idle → False)
    (hq : (rq.wakeupPreempt p f).needResched = false) : ¬Outranks rq p := by
  intro hout
  unfold Rq.wakeupPreempt at hq
  rcases hout with ⟨hrt, hout⟩ | ⟨hse, hf, hlt⟩
  · rw [((hw.rtOnRq p).mp hrt).2] at hq
    cases hc : (rq.tasks rq.donor).schedClass with
    | rt =>
        rw [hc] at hq
        have hpr := hout.resolve_left fun h => h hc
        simp [Rq.wakeupPreemptRt, hpr, Rq.reschedCurr] at hq
    | fair =>
        rw [hc] at hq
        cases hq
    | idle => exact hd hc
  · rw [((hw.seOnRq p).mp hse).2, hf] at hq
    simp [Rq.wakeupPreemptFair, hlt, Rq.reschedCurr] at hq

/-- The idle task is preempted by every task that is woken. -/
theorem Rq.wakeupPreempt_idle
    (hc : (rq.tasks p).schedClass = .rt ∨ (rq.tasks p).schedClass = .fair)
    (hd : (rq.tasks rq.donor).schedClass = .idle) :
    (rq.wakeupPreempt p f).needResched = true := by
  unfold Rq.wakeupPreempt
  rcases hc with hc | hc
  · rw [hc, hd]
    rfl
  · rw [hc, hd]
    rfl

/-- The run queue with a task that sleeps enqueued again. -/
theorem Wired.enqueue_woken (h : Wired rq) (hp : p ≠ 0) (hon : (rq.tasks p).onRq = false)
    {rq₁ : Rq} (hrq₁ : rq₁ = (rq.enqueueTask p f).modTask p fun T => { T with onRq := true }) :
    Wired rq₁ ∧ (∀ x, x ≠ p → rq₁.tasks x = rq.tasks x) ∧ (rq₁.tasks p).onRq = true ∧
      rq₁.donor = rq.donor ∧ rq.donor ≠ p ∧ rq₁.needResched = rq.needResched := by
  obtain ⟨hrt, hse⟩ := h.toMarked.alone hon
  obtain ⟨hd₁, hr₁⟩ := rq.enqueueTask_frame p f
  have hq₁ : Queues rq₁ := by
    rw [hrq₁]
    exact (h.toQueues.enqueueTask fun hc => h.toMarked.prio_lt hc).modTask rfl rfl
      (fun _ => rfl) fun _ => rfl
  have hother (x : Pid) (hx : x ≠ p) : rq₁.tasks x = rq.tasks x := by
    rw [hrq₁, Rq.modTask_tasks_of_ne _ _ _ hx, Rq.enqueueTask_tasks, Function.update_of_ne hx]
  have hself : rq₁.tasks p = { rq.tasks p with
      onRq := true
      rtOnRq := decide ((rq.tasks p).schedClass = .rt)
      seOnRq := decide ((rq.tasks p).schedClass = .fair) } := by
    rw [hrq₁, Rq.modTask_tasks_self, Rq.enqueueTask_tasks, Function.update_self, hrt, hse]
    simp
  have hm : Marked rq₁ := by
    refine h.toMarked.update hp hq₁ hother ?_ ?_ ?_
    · rw [hself]
      simp
    · rw [hself]
      simp
    · rw [hself]
      exact h.schedClass p hp
  have hdonor : rq₁.donor = rq.donor := by
    rw [hrq₁]
    exact hd₁
  have hdp : rq.donor ≠ p := by
    rintro hdp
    rcases h.donor with h0 | hon'
    · exact hp (hdp ▸ h0)
    · rw [hdp, hon] at hon'
      cases hon'
  refine ⟨⟨hm, by rw [hdonor, hother _ hdp]; exact h.donor⟩, hother, by rw [hself],
    hdonor, hdp, ?_⟩
  rw [hrq₁]
  exact hr₁

/-- A wake-up keeps the queues and the marks. -/
theorem Wired.wake (h : Wired rq) (hp : p ≠ 0) (hon : (rq.tasks p).onRq = false) :
    Wired (((rq.enqueueTask p f).modTask p fun T => { T with onRq := true }).wakeupPreempt
      p f) := by
  have hw := (h.enqueue_woken (f := f) hp hon rfl).1
  rcases Rq.wakeupPreempt_cases ((rq.enqueueTask p f).modTask p fun T =>
    { T with onRq := true })
    p f with heq | heq
  · rw [heq]
    exact hw
  · rw [heq]
    exact hw.reschedCurr

/-- **A wake-up** keeps the state sound. -/
theorem Sound.wake (h : Sound rq) (hp : p ≠ 0) (hon : (rq.tasks p).onRq = false) :
    Sound (((rq.enqueueTask p f).modTask p fun T => { T with onRq := true }).wakeupPreempt
      p f) := by
  obtain ⟨rq₁, hrq₁⟩ : ∃ rq₁, rq₁ = (rq.enqueueTask p f).modTask p fun T =>
    { T with onRq := true } :=
    ⟨_, rfl⟩
  obtain ⟨hw, hother, hon₁, hdonor, hdp, hr₁⟩ := h.toWired.enqueue_woken hp hon hrq₁
  have hset : (rq₁.wakeupPreempt p f).needResched = false → Settled rq₁ := by
    intro hnr
    have hnr₁ : rq₁.needResched = false := by
      rcases rq₁.wakeupPreempt_cases p f with heq | heq
      · rwa [heq] at hnr
      · rw [heq] at hnr
        cases hnr
    have hold := h.settled (hr₁.symm.trans hnr₁)
    have hcls : (rq₁.tasks p).schedClass = .rt ∨ (rq₁.tasks p).schedClass = .fair :=
      (hw.toMarked.queued_class hon₁).2
    -- the idle task would have been preempted
    have hidle : (rq₁.tasks rq₁.donor).schedClass = .idle → False := fun hid => by
      have := Rq.wakeupPreempt_idle (f := f) hcls hid
      rw [hnr] at this
      cases this
    constructor
    · intro x hout
      by_cases hx : x = p
      · subst hx
        exact Rq.wakeupPreempt_quiet hw.toMarked hidle hnr hout
      · refine hold.none x ?_
        have hbx : rq₁.tinyPrio x = rq.tinyPrio x := by rw [Rq.tinyPrio, hother x hx]; rfl
        have hbd : rq₁.tinyPrio rq.donor = rq.tinyPrio rq.donor := by
          rw [Rq.tinyPrio, hother _ hdp]
          rfl
        rw [Outranks, hdonor, hbx, hbd, hother x hx, hother _ hdp] at hout
        exact hout
    · intro h0
      exact (hidle (by rw [h0]; exact hw.idle.1)).elim
  rw [← hrq₁]
  rcases rq₁.wakeupPreempt_cases p f with heq | heq
  · rw [heq] at hset ⊢
    exact ⟨hw, hset⟩
  · rw [heq]
    exact ⟨hw.reschedCurr, fun hnr => absurd hnr.symm Bool.false_ne_true⟩

/-- The marks after the running task was dequeued to sleep. -/
theorem Wired.block (h : Wired rq) (hd : rq.donor ≠ 0) :
    Marked ((rq.dequeueTask rq.donor f).modTask rq.donor fun T =>
      { T with onRq := false }) := by
  have hself := h.toMarked.dequeueTask_self (p := rq.donor) (f := f)
  refine h.toMarked.update hd ?_ (fun x hx => ?_) ?_ ?_ ?_
  · exact h.toQueues.dequeueTask.modTask rfl rfl (fun _ => rfl) fun _ => rfl
  · rw [Rq.modTask_tasks_of_ne _ _ _ hx, Rq.dequeueTask_tasks, Function.update_of_ne hx]
  · rw [Rq.modTask_tasks_self, hself]
    simp
  · rw [Rq.modTask_tasks_self, hself]
    simp
  · rw [Rq.modTask_tasks_self, hself]
    exact h.schedClass _ hd

/-- A yield changes no task. -/
theorem Rq.yieldTask_frame (rq : Rq) :
    rq.yieldTask.tasks = rq.tasks ∧ rq.yieldTask.donor = rq.donor := by
  unfold Rq.yieldTask
  split
  · exact ⟨rq.yieldTaskRt_frame.1, rq.yieldTaskRt_frame.2.2.2.1⟩
  · exact ⟨rq.yieldTaskFair_frame.1, rq.yieldTaskFair_frame.2.2.1⟩
  · exact ⟨rfl, rfl⟩

/-- The marks after a yield. -/
theorem Marked.yieldTask (h : Marked rq) : Marked rq.yieldTask := by
  have htasks := rq.yieldTask_frame.1
  refine ⟨h.toQueues.yieldTask, ?_, ?_, ?_, ?_⟩
  · rw [htasks]
    exact h.rtOnRq
  · rw [htasks]
    exact h.seOnRq
  · rw [htasks]
    exact h.schedClass
  · rw [htasks]
    exact h.idle

/-- A pick makes the state sound. -/
theorem Marked.pick_sound (h : Marked rq) (hs : rq.pick = some rq') : Sound rq' := by
  obtain ⟨rq₁, hs₁, hw, -, hset⟩ := h.pick
  obtain rfl := Option.some.inj (hs.symm.trans hs₁)
  exact ⟨hw, fun _ => hset⟩

/-- `task_tick` changes slices and queues, and only asks for reschedules. -/
theorem Rq.taskTickFair_same (rq : Rq) (p : Pid) : SameTasks rq (rq.taskTickFair p) ∧
    (rq.taskTickFair p).donor = rq.donor ∧ (rq.taskTickFair p).rt = rq.rt ∧
    ((rq.taskTickFair p).needResched = false → rq.needResched = false) := by
  unfold Rq.taskTickFair
  dsimp only
  split
  · exact ⟨.refl rq, rfl, rfl, id⟩
  split
  · exact ⟨.slice rq p _, rfl, rfl, id⟩
  · refine ⟨fun x => ?_, rfl, rfl, fun h => nomatch h⟩
    exact SameTasks.slice rq p (fun T => T.slice - 1) x

/-- A tick keeps the queues and the marks. -/
theorem Wired.tick (h : Wired rq) : Wired rq.taskTick := by
  unfold Rq.taskTick
  cases hc : (rq.tasks rq.donor).schedClass with
  | rt => exact h
  | idle => exact h
  | fair =>
      obtain ⟨hsame, hdonor, hrt, -⟩ := rq.taskTickFair_same rq.donor
      have hon := h.fair_donor hc
      obtain ⟨q, hq⟩ := h.fair
      obtain ⟨r, hr⟩ := h.rt
      have hqueues : Queues (rq.taskTickFair rq.donor) := by
        refine ⟨?_, r, hr.congr hrt (fun x => by rw [hsame x]) fun i x _ => by rw [hsame x]⟩
        rcases hq.tick hon with hq' | hq'
        · exact ⟨_, hq'⟩
        · exact ⟨_, hq'⟩
      exact hsame.wired h.toMarked hqueues (by rw [hdonor]; exact h.donor)

/-- **A tick** keeps the state sound. -/
theorem Sound.tick (h : Sound rq) : Sound rq.taskTick := by
  refine ⟨h.toWired.tick, fun hnr => ?_⟩
  unfold Rq.taskTick at hnr ⊢
  cases hc : (rq.tasks rq.donor).schedClass with
  | rt | idle =>
      rw [hc] at hnr
      exact h.settled hnr
  | fair =>
      rw [hc] at hnr
      obtain ⟨hsame, hdonor, -, hres⟩ := rq.taskTickFair_same rq.donor
      exact hsame.settled hdonor (h.settled (hres hnr))

/-- **Every step** keeps the queues and the marks. -/
theorem coreStep_wired {a : CoreStep} (h : Wired rq) (hs : coreStep rq a = some rq') :
    Wired rq' := by
  cases a with
  | wake p =>
      simp only [coreStep] at hs
      split at hs
      · cases hs
      · next hcond =>
        obtain rfl := Option.some.inj hs
        exact h.wake (fun hp => hcond (.inl hp)) (by simpa using fun hon => hcond (.inr hon))
  | block =>
      simp only [coreStep] at hs
      split at hs
      · cases hs
      · next hd => exact ((h.block hd).pick_sound hs).toWired
  | change p policy staticPrio prio =>
      simp only [coreStep] at hs
      split at hs
      · cases hs
      · next hp =>
        obtain rfl := Option.some.inj hs
        exact h.changeTask hp
  | tick =>
      obtain rfl := Option.some.inj hs
      exact h.tick
  | yield => exact (h.toMarked.yieldTask.pick_sound hs).toWired
  | pick => exact (h.toMarked.pick_sound hs).toWired

/-- **Every step but a stranding one** keeps the state sound. -/
theorem coreStep_sound {a : CoreStep} (h : Sound rq) (hst : ¬Strands rq a)
    (hs : coreStep rq a = some rq') : Sound rq' := by
  cases a with
  | wake p =>
      simp only [coreStep] at hs
      split at hs
      · cases hs
      · next hcond =>
        obtain rfl := Option.some.inj hs
        exact h.wake (fun hp => hcond (.inl hp)) (by simpa using fun hon => hcond (.inr hon))
  | block =>
      simp only [coreStep] at hs
      split at hs
      · cases hs
      · next hd => exact (h.toWired.block hd).pick_sound hs
  | change p policy staticPrio prio =>
      simp only [coreStep] at hs
      split at hs
      · cases hs
      · next hp =>
        obtain rfl := Option.some.inj hs
        exact h.changeTask hp hst
  | tick =>
      obtain rfl := Option.some.inj hs
      exact h.tick
  | yield => exact h.toMarked.yieldTask.pick_sound hs
  | pick => exact h.toMarked.pick_sound hs

/-- A stranding step loses a preemption. -/
theorem coreStep_strands {a : CoreStep} (h : Sound rq) (hst : Strands rq a)
    (hs : coreStep rq a = some rq') : ¬NoneWaits rq' := by
  cases a with
  | change p policy staticPrio prio =>
      simp only [coreStep] at hs
      split at hs
      · cases hs
      · next hp =>
        obtain rfl := Option.some.inj hs
        exact Strands.lost h hp hst
  | wake | block | tick | yield | pick => exact hst.elim

/-! ### Runs -/

/-- The run queue before the classes are initialised: the idle task is the donor, no task is
queued, every other task has the class of its priority, and its `se.group_node` was
initialised when it was forked. The lists and bitmaps are arbitrary memory. -/
structure Booting (rq : Rq) : Prop where
  donor : rq.donor = 0
  idle : (rq.tasks 0).schedClass = .idle
  schedClass : ∀ p, p ≠ 0 → (rq.tasks p).schedClass = Rq.classOf (rq.tasks p).prio
  alone : ∀ p, (rq.tasks p).seOnRq = false ∧ (rq.tasks p).rtOnRq = false ∧
    (rq.tasks p).onRq = false
  links : ∀ p, rq.tiny.links.listEmpty (.elem p) = true
  cfs : rq.cfs = {}

/-- The run queue with both classes initialised. -/
def Rq.schedInit (rq : Rq) : Rq := rq.initRtRq.initSchedFairClass

/-- Initialising list heads leaves the elements alone. -/
theorem listEmpty_initHeads (m : Links (Node (Fin NR_TINY_PRIO) Pid))
    (L : List (Fin NR_TINY_PRIO))
    (p : Pid) : (L.foldl (fun m b => m.initListHead (.head b)) m).listEmpty (.elem p) =
      m.listEmpty (.elem p) := by
  induction L generalizing m with
  | nil => rfl
  | cons b L ih =>
      rw [List.foldl_cons, ih]
      simp [Links.listEmpty, Links.initListHead]

/-- The state after the initialisation is sound. -/
theorem Booting.sound (h : Booting rq) : Sound rq.schedInit := by
  have hfair : FairQueues (fun _ => False) rq.schedInit fun _ => [] :=
    FairQueues.init h.cfs fun p => (h.alone p).1
  have hall : FairQueues (fun _ => True) rq.schedInit fun _ => [] :=
    { hfair with
      forked := fun hm => by cases hm
      alone := fun p _ _ => (listEmpty_initHeads _ _ p).trans (h.links p) }
  have hrt : RtQueues rq.schedInit fun _ => [] :=
    (RtQueues.init fun p => (h.alone p).2.1).congr rfl (fun _ => rfl) fun _ _ hm => by cases hm
  have hoff (p : Pid) : (rq.schedInit.tasks p).seOnRq = false ∧
      (rq.schedInit.tasks p).rtOnRq = false ∧ (rq.schedInit.tasks p).onRq = false := h.alone p
  refine ⟨⟨⟨⟨⟨_, hall⟩, _, hrt⟩, fun p => ?_, fun p => ?_, h.schedClass, h.idle,
    (h.alone 0).2.2⟩, .inl h.donor⟩, fun _ => ⟨fun p hout => ?_, fun _ p => (hoff p).2.2⟩⟩
  · simp [hoff p]
  · simp [hoff p]
  · rcases hout with ⟨hon, -⟩ | ⟨hon, -⟩
    · rw [(hoff p).2.1] at hon
      cases hon
    · rw [(hoff p).1] at hon
      cases hon

/-- A run queue that is about to be initialised: the tasks `1` and `2` are real-time tasks. -/
def twoRtRq : Rq :=
  { bootRq with
    tasks := Function.update (Function.update bootRq.tasks 1
      { policy := .fifo, prio := 40, schedClass := .rt }) 2
      { policy := .fifo, prio := 50, schedClass := .rt }
    tiny := { bootRq.tiny with links := ⟨id, id⟩ } }

theorem twoRtRq_booting : Booting twoRtRq where
  donor := rfl
  idle := rfl
  schedClass p hp := by
    by_cases h2 : p = 2
    · subst h2
      rfl
    · by_cases h1 : p = 1
      · subst h1
        rfl
      · simp [twoRtRq, bootRq, hp, h1, h2, Rq.classOf, MAX_RT_PRIO]
  alone p := by
    by_cases h2 : p = 2
    · subst h2
      exact ⟨rfl, rfl, rfl⟩
    · by_cases h1 : p = 1
      · subst h1
        exact ⟨rfl, rfl, rfl⟩
      · simpa [twoRtRq, h1, h2] using bootRq_alone p
  links p := by simp [twoRtRq, Links.listEmpty]
  cfs := rfl

/-- **No preemption is lost**, in any state of a run from boot, exactly if no step of the run
moves the running real-time task to the fair class while another real-time task is queued
and nothing else asks for a reschedule. -/
theorem no_lost_preemption_iff (h : Booting rq) (as : List CoreStep) :
    Along coreStep NoneWaits rq.schedInit as ↔
      AlongSteps coreStep (fun rq a => ¬Strands rq a) rq.schedInit as := by
  have hok : AlongSteps coreStep (fun _ _ => True) rq.schedInit as := alongSteps_true
  refine along_iff_of_invariant (fun _ hs => hs.noneWaits)
    (fun _ _ _ hs _ hg => coreStep_sound hs hg)
    (fun _ _ _ hs _ hg => coreStep_strands hs (not_not.mp hg)) h.sound hok

/-- Two real-time tasks are woken, the better one runs and blocks, and the other runs. -/
theorem no_lost_preemption_two :
    Along coreStep NoneWaits twoRtRq.schedInit [.wake 2, .wake 1, .pick, .block] := by
  refine (no_lost_preemption_iff twoRtRq_booting _).mpr ?_
  exact fun _ _ => ⟨id, fun _ _ => ⟨id, fun _ _ => ⟨id, fun _ _ => ⟨id, trivial⟩⟩⟩⟩

/-- The running real-time task is moved to the fair class: the other real-time task waits, and
no reschedule is pending. -/
theorem switch_to_fair_strands :
    Booting twoRtRq ∧ ∃ rq, [CoreStep.wake 1, .wake 2, .pick, .change 1 .normal 120 120].foldlM
        coreStep twoRtRq.schedInit = some rq ∧ ¬NoneWaits rq := by
  refine ⟨twoRtRq_booting, _, rfl, fun h => h rfl 2 (.inl ⟨rfl, .inl ?_⟩)⟩
  decide

end Adbd.Sched
