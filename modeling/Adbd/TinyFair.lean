import Adbd.TinySched
import Mathlib.Tactic.FinCases

/-!
# The Queues of the Fair Class

The bitmap, the three lists, the mark of each task and the counters of the tiny fair class
say the same thing in every reachable state. `FairQueues` is that agreement, for given
contents of the lists; every callback has one lemma that says what it does to the contents.

## Main definitions

* `FairQueues`: the state of the class describes given contents of its queues.
* `FairState`, `fairStep`, `FairReachable`: runs of the class on its own, with new tasks
  forked and the parameters of a task changed only while it is dequeued.

## Main results

* `FairQueues.enqueue`, `FairQueues.dequeue`, `FairQueues.yield`, `FairQueues.tick`,
  `FairQueues.fork`: the callbacks on the contents of the queues.
* `FairQueues.pick_none`, `FairQueues.pick_some`: what is picked.
* `fair_runqueue_consistent`: the agreement in every reachable state.
-/

namespace Adbd.Sched

open ListHead

variable {rq : Rq} {q : Fin NR_TINY_PRIO → List Pid} {born : Pid → Prop} {p : Pid} {f : Flags}
  {b : Fin NR_TINY_PRIO}

/-- The lists, bitmap, marks and counters of the class describe the contents `q`; a task
that was forked and is not queued has a node that points to itself. -/
structure FairQueues (born : Pid → Prop) (rq : Rq) (q : Fin NR_TINY_PRIO → List Pid) :
    Prop where
  rings : Rings rq.tiny.links q
  active : ∀ b : Fin NR_TINY_PRIO, rq.tiny.active b = true ↔ q b ≠ []
  onRq : ∀ p, (rq.tasks p).seOnRq = true ↔ ∃ b, p ∈ q b
  bucket : ∀ {b p}, p ∈ q b → rq.tinyPrio p = b
  forked : ∀ {b p}, p ∈ q b → born p
  alone : ∀ p, born p → (∀ b, p ∉ q b) → rq.tiny.links.listEmpty (.elem p) = true
  nrQueued : rq.cfs.nrQueued = total q
  hNrQueued : rq.cfs.hNrQueued = total q

namespace FairQueues

/-- A task is on no list if it is not marked queued. -/
theorem not_mem (h : FairQueues born rq q) (hp : (rq.tasks p).seOnRq = false)
    (b : Fin NR_TINY_PRIO) :
    p ∉ q b := fun hm => by
  have := (h.onRq p).mpr ⟨b, hm⟩
  rw [hp] at this
  cases this

/-- A queued task is in the list of its bucket. -/
theorem mem (h : FairQueues born rq q) (hp : (rq.tasks p).seOnRq = true) :
    p ∈ q (rq.tinyPrio p) := by
  obtain ⟨b, hm⟩ := (h.onRq p).mp hp
  rwa [h.bucket hm]

/-- The agreement depends on the fields of the class only. -/
theorem congr {rq' : Rq} (h : FairQueues born rq q) (htiny : rq'.tiny = rq.tiny)
    (hcfs : rq'.cfs = rq.cfs) (hon : ∀ p, (rq'.tasks p).seOnRq = (rq.tasks p).seOnRq)
    (hprio : ∀ b, ∀ p ∈ q b, rq'.tinyPrio p = rq.tinyPrio p) : FairQueues born rq' q where
  rings := htiny ▸ h.rings
  active b := htiny ▸ h.active b
  onRq p := by rw [hon]; exact h.onRq p
  bucket {b p} hm := (hprio b p hm).trans (h.bucket hm)
  forked := h.forked
  alone := htiny ▸ h.alone
  nrQueued := hcfs ▸ h.nrQueued
  hNrQueued := hcfs ▸ h.hNrQueued

/-- Enqueueing a queued task changes nothing. -/
theorem enqueue_queued (h : FairQueues born rq q) (hp : (rq.tasks p).seOnRq = true) :
    rq.enqueueTaskFair p f = rq := by
  have hne := h.rings.listEmpty_elem_of_mem (h.mem hp)
  simp only [Rq.enqueueTaskFair, hne, Rq.modTask]
  have htask : ({ rq.tasks p with seOnRq := true } : TaskStruct) = rq.tasks p := by
    rw [← hp]
  simp [htask]

/-- Dequeueing a task that is not queued changes nothing. -/
theorem dequeue_alone (h : FairQueues born rq q) (hb : born p)
    (hp : (rq.tasks p).seOnRq = false) :
    rq.dequeueTaskFair p f = rq := by
  have he := h.alone p hb (h.not_mem hp)
  simp only [Rq.dequeueTaskFair, he, if_true, Rq.modTask]
  have htask : ({ rq.tasks p with seOnRq := false } : TaskStruct) = rq.tasks p := by
    rw [← hp]
  simp [htask]

/-- `enqueue_task_fair` on a task that is not queued appends it to its bucket. -/
theorem enqueue (h : FairQueues born rq q) (hb : born p) (hp : (rq.tasks p).seOnRq = false) :
    FairQueues born (rq.enqueueTaskFair p f)
      (Function.update q (rq.tinyPrio p) (q (rq.tinyPrio p) ++ [p])) := by
  have hnot := h.not_mem hp
  have he := h.alone p hb hnot
  have hprio (x : Pid) : (rq.enqueueTaskFair p f).tinyPrio x = rq.tinyPrio x := by
    rw [Rq.tinyPrio, Rq.enqueueTaskFair_tasks]
    by_cases hx : x = p
    · subst hx
      simp [Rq.tinyPrio, tinyPrioOf]
    · simp [Rq.tinyPrio, hx]
  have hlinks : (rq.enqueueTaskFair p f).tiny.links =
      rq.tiny.links.listAddTail (.elem p) (.head (rq.tinyPrio p)) := by
    simp [Rq.enqueueTaskFair, Rq.modTask, he]
  refine ⟨?_, fun b => ?_, fun x => ?_, fun {b x} hx => ?_, fun {b x} hx => ?_,
    fun x hx hno => ?_, ?_, ?_⟩
  · rw [hlinks]
    exact h.rings.addTail hnot _
  · have hact : (rq.enqueueTaskFair p f).tiny.active = putBit rq.tiny.active
      (rq.tinyPrio p) true := by
      simp [Rq.enqueueTaskFair, Rq.modTask, he]
    rw [hact]
    by_cases hbp : b = rq.tinyPrio p
    · subst hbp
      simp [putBit]
    · have hval : (b : Nat) ≠ rq.tinyPrio p := fun hv => hbp (Fin.ext hv)
      rw [putBit, Function.update_of_ne hval, Function.update_of_ne hbp]
      exact h.active b
  · simp only [Rings.mem_update_append, Rq.enqueueTaskFair_tasks]
    by_cases hx : x = p
    · subst hx
      simp
    · rw [Function.update_of_ne hx, h.onRq x]
      simp [hx]
  · rw [hprio]
    rcases Rings.mem_update_append.mp hx with hx | ⟨rfl, rfl⟩
    · exact h.bucket hx
    · rfl
  · rcases Rings.mem_update_append.mp hx with hx | ⟨rfl, -⟩
    · exact h.forked hx
    · exact hb
  · have hxp : x ≠ p := fun hxp =>
      hno (rq.tinyPrio p) (Rings.mem_update_append.mpr (.inr ⟨hxp, rfl⟩))
    have hxq (b : Fin NR_TINY_PRIO) : x ∉ q b := fun hm =>
      hno b (Rings.mem_update_append.mpr (.inl hm))
    rw [hlinks, Links.listEmpty, h.rings.addTail_next hxq hxp]
    exact h.alone x hx hxq
  · rw [total_append]
    simp [Rq.enqueueTaskFair, Rq.modTask, he, h.nrQueued]
  · rw [total_append]
    simp [Rq.enqueueTaskFair, Rq.modTask, he, h.hNrQueued]

/-- `dequeue_task_fair` on a queued task takes it out of its bucket. -/
theorem dequeue (h : FairQueues born rq q) (hp : (rq.tasks p).seOnRq = true) :
    FairQueues born (rq.dequeueTaskFair p f)
      (Function.update q (rq.tinyPrio p) ((q (rq.tinyPrio p)).erase p)) := by
  have hm := h.mem hp
  have he := h.rings.listEmpty_elem_of_mem hm
  have hrings := h.rings.delInit hm
  have hlinks : (rq.dequeueTaskFair p f).tiny.links = rq.tiny.links.listDelInit (.elem p) := by
    simp [Rq.dequeueTaskFair, Rq.modTask, he]
  have hact : (rq.dequeueTaskFair p f).tiny.active =
      if (rq.tiny.links.listDelInit (.elem p)).listEmpty (.head (rq.tinyPrio p))
      then putBit rq.tiny.active (rq.tinyPrio p) false else rq.tiny.active := by
    simp [Rq.dequeueTaskFair, Rq.modTask, he]
  refine ⟨?_, fun b => ?_, fun x => ?_, fun {b x} hx => ?_,
    fun hx => h.forked ((h.rings.mem_update_erase hm).mp hx).1, fun x hx hno => ?_, ?_, ?_⟩
  · rw [hlinks]
    exact hrings
  · have hiff := hrings.listEmpty_head (i := rq.tinyPrio p)
    rw [Function.update_self] at hiff
    rw [hact]
    by_cases hbp : b = rq.tinyPrio p
    · subst hbp
      rw [Function.update_self]
      split
      · next hempty =>
        simp [putBit, hiff.mp hempty]
      · next hempty =>
        have hset : rq.tiny.active (rq.tinyPrio p) = true :=
          (h.active _).mpr (List.ne_nil_of_mem hm)
        simpa [hset] using fun h => hempty (hiff.mpr h)
    · have hval : (b : Nat) ≠ rq.tinyPrio p := fun hv => hbp (Fin.ext hv)
      rw [Function.update_of_ne hbp]
      split
      · rw [putBit, Function.update_of_ne hval]
        exact h.active b
      · exact h.active b
  · simp only [h.rings.mem_update_erase hm, Rq.dequeueTaskFair_tasks]
    by_cases hx : x = p
    · subst hx
      simp
    · rw [Function.update_of_ne hx, h.onRq x]
      simp [hx]
  · obtain ⟨hx, hxp⟩ := (h.rings.mem_update_erase hm).mp hx
    rw [Rq.tinyPrio, Rq.dequeueTaskFair_tasks, Function.update_of_ne hxp]
    exact h.bucket hx
  · rw [hlinks, Links.listDelInit]
    by_cases hxp : x = p
    · subst hxp
      simp [Links.listEmpty, Links.initListHead]
    · have hxq (b : Fin NR_TINY_PRIO) : x ∉ q b := fun hm' =>
        hno b ((h.rings.mem_update_erase hm).mpr ⟨hm', hxp⟩)
      have hsame : ((rq.tiny.links.listDel (.elem p)).initListHead (.elem p)).next (.elem x) =
          (rq.tiny.links.listDel (.elem p)).next (.elem x) := by
        simp [Links.initListHead, hxp]
      rw [Links.listEmpty, hsame, h.rings.del_next hxq hm]
      exact h.alone x hx hxq
  · have htotal := total_erase hm
    simp only [Rq.dequeueTaskFair, Rq.modTask, he, h.nrQueued, Bool.false_eq_true, if_false]
    omega
  · have htotal := total_erase hm
    simp only [Rq.dequeueTaskFair, Rq.modTask, he, h.hNrQueued, Bool.false_eq_true, if_false]
    omega

/-- Moving a queued task to the end of its bucket. -/
theorem rotate (h : FairQueues born rq q) (hp : (rq.tasks p).seOnRq = true) :
    FairQueues born (rq.rotateFair p)
      (Function.update q (rq.tinyPrio p) ((q (rq.tinyPrio p)).erase p ++ [p])) := by
  have hm := h.mem hp
  have htotal :
    total (Function.update q (rq.tinyPrio p) ((q (rq.tinyPrio p)).erase p ++ [p])) =
      total q := by
    have hup := total_update (q := q) (i := rq.tinyPrio p)
      (l := (q (rq.tinyPrio p)).erase p ++ [p])
    have hpos := List.length_pos_of_mem hm
    rw [List.length_append, List.length_erase_of_mem hm, List.length_singleton] at hup
    omega
  refine ⟨h.rings.moveTail hm, fun b => ?_, fun x => ?_, fun {b x} hx => ?_,
    fun hx => h.forked ((h.rings.mem_moveTail hm).mp hx), fun x hx hno => ?_, ?_, ?_⟩
  · have hne :
      (Function.update q (rq.tinyPrio p) ((q (rq.tinyPrio p)).erase p ++ [p]) b ≠ []) ↔
        q b ≠ [] := by
      by_cases hbp : b = rq.tinyPrio p
      · subst hbp
        simp [List.ne_nil_of_mem hm]
      · rw [Function.update_of_ne hbp]
    rw [hne]
    exact h.active b
  · simp only [h.rings.mem_moveTail hm]
    exact h.onRq x
  · exact h.bucket ((h.rings.mem_moveTail hm).mp hx)
  · have hxq (b : Fin NR_TINY_PRIO) : x ∉ q b :=
      fun hm' => hno b ((h.rings.mem_moveTail hm).mpr hm')
    have hxp : x ≠ p := fun hxp => hxq _ (hxp ▸ hm)
    have hdel (b : Fin NR_TINY_PRIO) :
        x ∉ Function.update q (rq.tinyPrio p) ((q (rq.tinyPrio p)).erase p) b := fun hm' =>
      hxq b ((h.rings.mem_update_erase hm).mp hm').1
    rw [Rq.rotateFair, Links.listEmpty, (h.rings.del hm).addTail_next hdel hxp,
      h.rings.del_next hxq hm]
    exact h.alone x hx hxq
  · rw [htotal]
    exact h.nrQueued
  · rw [htotal]
    exact h.hNrQueued

/-- `yield_task_fair` moves a queued donor to the end of its bucket. -/
theorem yield (h : FairQueues born rq q) (hp : (rq.tasks rq.donor).seOnRq = true) :
    FairQueues born rq.yieldTaskFair
      (Function.update q (rq.tinyPrio rq.donor)
        ((q (rq.tinyPrio rq.donor)).erase rq.donor ++ [rq.donor])) := by
  have hm := h.mem hp
  rw [Rq.yieldTaskFair]
  split
  · exact h.rotate hp
  · next hcond =>
    have hprev : rq.tiny.links.prev (.head (rq.tinyPrio rq.donor)) = .elem rq.donor := by
      by_contra hne
      exact hcond ⟨h.rings.listEmpty_elem_of_mem hm, hne⟩
    rw [h.rings.moveTail_last hprev, Function.update_eq_self]
    exact h

/-- `yield_task_fair` does nothing for a donor that is not queued. -/
theorem yield_alone (h : FairQueues born rq q) (hb : born rq.donor)
    (hp : (rq.tasks rq.donor).seOnRq = false) : rq.yieldTaskFair = rq := by
  have he := h.alone _ hb (h.not_mem hp)
  simp [Rq.yieldTaskFair, he]

/-- Changes to fields of tasks that the class does not look at. -/
theorem modTask (h : FairQueues born rq q) {g : TaskStruct → TaskStruct}
    (hon : (g (rq.tasks p)).seOnRq = (rq.tasks p).seOnRq)
    (hprio : (rq.tasks p).seOnRq = true → tinyPrioOf (g (rq.tasks p)) = rq.tinyPrio p) :
    FairQueues born (rq.modTask p g) q := by
  refine h.congr rfl rfl (fun x => ?_) fun b x hx => ?_
  · by_cases hx : x = p
    · subst hx
      simpa [Rq.modTask] using hon
    · simp [Rq.modTask, hx]
  · by_cases hxp : x = p
    · subst hxp
      simpa [Rq.modTask, Rq.tinyPrio] using hprio ((h.onRq x).mpr ⟨b, hx⟩)
    · simp [Rq.modTask, Rq.tinyPrio, hxp]

/-- What `task_tick_fair` does: nothing if the bucket has one task, else it charges the
task and, when the slice is used up, moves it to the end and asks for a reschedule. -/
theorem tick_cases (h : FairQueues born rq q) :
    ((q (rq.tinyPrio p)).length ≤ 1 ∧ rq.taskTickFair p = rq) ∨
      2 ≤ (q (rq.tinyPrio p)).length ∧
        ((2 ≤ (rq.tasks p).slice ∧ rq.taskTickFair p =
            rq.modTask p fun T => { T with slice := T.slice - 1 }) ∨
          (rq.tasks p).slice ≤ 1 ∧ rq.taskTickFair p =
            ((rq.modTask p fun T => { T with slice := T.slice - 1 }).rotateFair
              p).reschedCurr) := by
  have hiff := h.rings.next_eq_prev_head (i := rq.tinyPrio p)
  by_cases hlen : (q (rq.tinyPrio p)).length ≤ 1
  · exact .inl ⟨hlen, by rw [Rq.taskTickFair, if_pos (hiff.mpr hlen)]⟩
  · refine .inr ⟨by omega, ?_⟩
    rw [Rq.taskTickFair, if_neg fun heq => hlen (hiff.mp heq)]
    by_cases hs : 2 ≤ (rq.tasks p).slice
    · refine .inl ⟨hs, ?_⟩
      rw [if_pos (by omega)]
      rfl
    · refine .inr ⟨by omega, ?_⟩
      rw [if_neg (by omega)]
      rfl

/-- The end of a slice moves the task to the end of its bucket. -/
theorem expire (h : FairQueues born rq q) (hp : (rq.tasks p).seOnRq = true) :
    FairQueues born
      ((rq.modTask p fun T => { T with slice := T.slice - 1 }).rotateFair p).reschedCurr
      (Function.update q (rq.tinyPrio p) ((q (rq.tinyPrio p)).erase p ++ [p])) := by
  have hdec : FairQueues born (rq.modTask p fun T => { T with slice := T.slice - 1 }) q :=
    h.modTask rfl fun _ => rfl
  have hprio : (rq.modTask p fun T => { T with slice := T.slice - 1 }).tinyPrio p =
    rq.tinyPrio p := by
    simp [Rq.modTask, Rq.tinyPrio, tinyPrioOf]
  have hrot := hdec.rotate (p := p) (by simpa [Rq.modTask] using hp)
  rw [hprio] at hrot
  exact hrot.congr rfl rfl (fun _ => rfl) fun _ _ _ => rfl

/-- `task_tick_fair` on a queued task leaves the queues alone or moves the task to the end
of its bucket. -/
theorem tick (h : FairQueues born rq q) (hp : (rq.tasks p).seOnRq = true) :
    FairQueues born (rq.taskTickFair p) q ∨
      FairQueues born (rq.taskTickFair p)
        (Function.update q (rq.tinyPrio p) ((q (rq.tinyPrio p)).erase p ++ [p])) := by
  obtain ⟨-, heq⟩ | ⟨-, ⟨-, heq⟩ | ⟨-, heq⟩⟩ := h.tick_cases (p := p)
  · rw [heq]
    exact .inl h
  · rw [heq]
    exact .inl (h.modTask rfl fun _ => rfl)
  · rw [heq]
    exact .inr (h.expire hp)

/-- `task_fork_fair` of a task that was not forked before. -/
theorem fork (h : FairQueues born rq q) (hp : (rq.tasks p).seOnRq = false) :
    FairQueues (fun x => born x ∨ x = p) (rq.taskForkFair p) q := by
  have hnot := h.not_mem hp
  refine ⟨h.rings.initElem hnot, h.active, fun x => ?_, fun {b x} hx => ?_,
    fun hx => .inl (h.forked hx), fun x hx hno => ?_, h.nrQueued, h.hNrQueued⟩
  · rw [← h.onRq x]
    by_cases hx : x = p
    · subst hx
      simp [Rq.taskForkFair, Rq.modTask]
    · simp [Rq.taskForkFair, Rq.modTask, hx]
  · have hxp : x ≠ p := fun hxp => hnot b (hxp ▸ hx)
    rw [← h.bucket hx]
    simp [Rq.taskForkFair, Rq.modTask, Rq.tinyPrio, hxp]
  · by_cases hxp : x = p
    · subst hxp
      simp [Rq.taskForkFair, Rq.modTask, Links.listEmpty, Links.initListHead]
    · have hold := h.alone x (hx.resolve_right hxp) hno
      simpa [Rq.taskForkFair, Rq.modTask, Links.listEmpty, Links.initListHead, hxp] using hold

/-- Nothing is picked exactly if nothing is queued. -/
theorem pick_none (h : FairQueues born rq q) : rq.pickTaskFair = none ↔ ∀ b, q b = [] := by
  rw [Rq.pickTaskFair]
  obtain ⟨hsize, hclear⟩ | ⟨hlt, hset, -⟩ := findFirstBit_cases rq.tiny.active NR_TINY_PRIO
  · rw [dif_neg (by omega)]
    refine iff_of_true rfl fun b => ?_
    by_contra hne
    have := (h.active b).mpr hne
    rw [hclear b b.isLt] at this
    cases this
  · rw [dif_pos hlt]
    refine iff_of_false (by simp) fun hall => ?_
    exact (h.active ⟨_, hlt⟩).mp hset (hall _)

/-- What is picked is the task at the front of the first bucket that is not empty. -/
theorem pick_some (h : FairQueues born rq q) {n : Node (Fin NR_TINY_PRIO) Pid}
    (hn : rq.pickTaskFair = some n) :
    ∃ b p l, n = .elem p ∧ q b = p :: l ∧ ∀ b' < b, q b' = [] := by
  rw [Rq.pickTaskFair] at hn
  obtain ⟨hsize, -⟩ | ⟨hlt, hset, hmin⟩ := findFirstBit_cases rq.tiny.active NR_TINY_PRIO
  · rw [dif_neg (by omega)] at hn
    cases hn
  · rw [dif_pos hlt] at hn
    obtain ⟨p, l, hq⟩ := List.exists_cons_of_ne_nil ((h.active ⟨_, hlt⟩).mp hset)
    rw [h.rings.next_head hq] at hn
    refine ⟨⟨_, hlt⟩, p, l, (Option.some.inj hn).symm, hq, fun b' hb' => ?_⟩
    by_contra hne
    have := (h.active b').mpr hne
    rw [hmin b' hb'] at this
    cases this

/-- `init_sched_fair_class` empties the queues. -/
theorem init (hcfs : rq.cfs = {}) (hon : ∀ p, (rq.tasks p).seOnRq = false) :
    FairQueues (fun _ => False) rq.initSchedFairClass fun _ => [] where
  rings := Rings.init fun b => List.mem_finRange b
  active b := by simp [Rq.initSchedFairClass]
  onRq p := by simp [Rq.initSchedFairClass, hon]
  bucket hm := by simp at hm
  forked hm := by simp at hm
  alone p hp := hp.elim
  nrQueued := by simp [Rq.initSchedFairClass, hcfs, total]
  hNrQueued := by simp [Rq.initSchedFairClass, hcfs, total]

end FairQueues

/-! ### Runs of the class -/

/-- The run queue and the tasks that have been forked. -/
structure FairState where
  rq : Rq
  forked : Pid → Bool

/-- What `core.c` does with the class. -/
inductive FairOp where
  | fork (p : Pid) (T : TaskStruct)
  | enqueue (p : Pid) (f : Flags)
  | dequeue (p : Pid) (f : Flags)
  | yield
  | tick
  | setParam (p : Pid) (policy : Policy) (staticPrio : Int)
  | setDonor (p : Pid)

/-- One operation on the class. A task is forked once, `core.c` clearing the marks it copied
from its parent; only forked tasks are passed to the callbacks; a tick charges a queued
donor; and the parameters of a task change only while it is dequeued. -/
def fairStep (s : FairState) : FairOp → Option FairState
  | .fork p T =>
      if s.forked p then none
      else some
        { rq := (s.rq.modTask p fun _ => { T with onRq := false, seOnRq := false,
                                                  rtOnRq := false }).taskForkFair p
          forked := Function.update s.forked p true }
  | .enqueue p f => if s.forked p then some { s with rq := s.rq.enqueueTaskFair p f } else none
  | .dequeue p f => if s.forked p then some { s with rq := s.rq.dequeueTaskFair p f } else none
  | .yield => if s.forked s.rq.donor then some { s with rq := s.rq.yieldTaskFair } else none
  | .tick =>
      if (s.rq.tasks s.rq.donor).seOnRq then some { s with rq := s.rq.taskTickFair s.rq.donor }
      else none
  | .setParam p policy staticPrio =>
      if (s.rq.tasks p).seOnRq then none
      else some { s with rq := s.rq.modTask p fun T =>
        { T with policy := policy, staticPrio := staticPrio } }
  | .setDonor p => some { s with rq := { s.rq with donor := p } }

/-- The states reached from `init_sched_fair_class`, on memory with arbitrary links and an
arbitrary donor, with the other classes contributing `base` to `nr_running`. -/
inductive FairReachable (base : Nat) : FairState → Prop where
  | init (rq : Rq) (hcfs : rq.cfs = {}) (hrun : rq.nrRunning = base)
      (hon : ∀ p, (rq.tasks p).seOnRq = false) :
      FairReachable base ⟨rq.initSchedFairClass, fun _ => false⟩
  | step {s s' : FairState} (o : FairOp) (h : FairReachable base s)
      (hs : fairStep s o = some s') :
      FairReachable base s'

/-- The queues agree, and the class contributes its queued tasks to `nr_running`. -/
def FairInv (base : Nat) (s : FairState) (q : Fin NR_TINY_PRIO → List Pid) : Prop :=
  FairQueues (fun p => s.forked p = true) s.rq q ∧ s.rq.nrRunning = base + total q

/-- The agreement, for tasks forked as the state says. -/
theorem FairQueues.imp {born' : Pid → Prop} (h : FairQueues born rq q)
    (hiff : ∀ p, born p ↔ born' p) :
    FairQueues born' rq q :=
  ⟨h.rings, h.active, h.onRq, h.bucket, fun hm => (hiff _).mp (h.forked hm),
    fun p hp => h.alone p ((hiff p).mpr hp), h.nrQueued, h.hNrQueued⟩

/-- A task that was not forked is not queued. -/
theorem FairQueues.not_queued (h : FairQueues born rq q) (hp : ¬born p) :
    (rq.tasks p).seOnRq = false := by
  by_contra hon
  obtain ⟨b, hm⟩ := (h.onRq p).mp (by simpa using hon)
  exact hp (h.forked hm)

/-- Enqueueing a task that is not queued counts it. -/
theorem FairQueues.enqueue_nrRunning (h : FairQueues born rq q) (hb : born p)
    (hp : (rq.tasks p).seOnRq = false) :
    (rq.enqueueTaskFair p f).nrRunning = rq.nrRunning + 1 := by
  simp [Rq.enqueueTaskFair, Rq.modTask, h.alone p hb (h.not_mem hp)]

/-- Dequeueing a queued task counts it off. -/
theorem FairQueues.dequeue_nrRunning (h : FairQueues born rq q)
    (hp : (rq.tasks p).seOnRq = true) :
    (rq.dequeueTaskFair p f).nrRunning = rq.nrRunning - 1 := by
  simp [Rq.dequeueTaskFair, Rq.modTask, h.rings.listEmpty_elem_of_mem (h.mem hp)]

/-- `task_tick_fair` counts nothing. -/
theorem Rq.taskTickFair_nrRunning (rq : Rq) (p : Pid) :
    (rq.taskTickFair p).nrRunning = rq.nrRunning := by
  unfold Rq.taskTickFair
  dsimp only
  split
  · rfl
  split <;> rfl

/-- Moving a queued task to the end of its bucket keeps the number of queued tasks. -/
theorem FairQueues.total_rotate (h : FairQueues born rq q) (hp : (rq.tasks p).seOnRq = true) :
    total (Function.update q (rq.tinyPrio p) ((q (rq.tinyPrio p)).erase p ++ [p])) =
      total q := by
  have hrot := (h.rotate hp).nrQueued
  rw [← hrot]
  exact h.nrQueued

/-- Every operation keeps the agreement. -/
theorem fairStep_inv {base : Nat} {s s' : FairState} {o : FairOp} (h : FairInv base s q)
    (hs : fairStep s o = some s') : ∃ q', FairInv base s' q' := by
  obtain ⟨hq, hrun⟩ := h
  cases o with
  | fork p T =>
      simp only [fairStep] at hs
      split at hs
      · cases hs
      · next hf =>
        obtain rfl := Option.some.inj hs
        have hon := hq.not_queued hf
        have hmod : FairQueues (fun p => s.forked p = true)
            (s.rq.modTask p fun _ =>
              { T with onRq := false, seOnRq := false, rtOnRq := false }) q :=
          hq.modTask hon.symm fun hon' => by rw [hon] at hon'; cases hon'
        have hfork := hmod.fork (p := p) (by simp)
        refine ⟨q, hfork.imp fun x => ?_, hrun⟩
        by_cases hxp : x = p
        · simp [hxp]
        · simp [hxp]
  | enqueue p f =>
      simp only [fairStep] at hs
      split at hs
      · next hf =>
        obtain rfl := Option.some.inj hs
        by_cases hon : (s.rq.tasks p).seOnRq = true
        · rw [hq.enqueue_queued hon]
          exact ⟨q, hq, hrun⟩
        · have hon' : (s.rq.tasks p).seOnRq = false := by simpa using hon
          refine ⟨_, hq.enqueue (f := f) hf hon', ?_⟩
          rw [total_append, hq.enqueue_nrRunning hf hon', hrun]
          omega
      · cases hs
  | dequeue p f =>
      simp only [fairStep] at hs
      split at hs
      · next hf =>
        obtain rfl := Option.some.inj hs
        by_cases hon : (s.rq.tasks p).seOnRq = true
        · have htotal := total_erase (hq.mem hon)
          refine ⟨_, hq.dequeue (f := f) hon, ?_⟩
          rw [hq.dequeue_nrRunning hon, hrun]
          omega
        · rw [hq.dequeue_alone hf (by simpa using hon)]
          exact ⟨q, hq, hrun⟩
      · cases hs
  | yield =>
      simp only [fairStep] at hs
      split at hs
      · next hf =>
        obtain rfl := Option.some.inj hs
        by_cases hon : (s.rq.tasks s.rq.donor).seOnRq = true
        · refine ⟨_, hq.yield hon, ?_⟩
          rw [hq.total_rotate hon]
          exact s.rq.yieldTaskFair_frame.2.2.2.2.trans hrun
        · rw [hq.yield_alone hf (by simpa using hon)]
          exact ⟨q, hq, hrun⟩
      · cases hs
  | tick =>
      simp only [fairStep] at hs
      split at hs
      · next hon =>
        obtain rfl := Option.some.inj hs
        have hrun' := (s.rq.taskTickFair_nrRunning s.rq.donor).trans hrun
        obtain hsame | hrot := hq.tick hon
        · exact ⟨q, hsame, hrun'⟩
        · exact ⟨_, hrot, by rw [hq.total_rotate hon]; exact hrun'⟩
      · cases hs
  | setParam p policy staticPrio =>
      simp only [fairStep] at hs
      split at hs
      · cases hs
      · next hon =>
        obtain rfl := Option.some.inj hs
        have hmod : FairQueues (fun p => s.forked p = true)
            (s.rq.modTask p fun T =>
              { T with policy := policy, staticPrio := staticPrio }) q :=
          hq.modTask rfl fun hon' => absurd hon' hon
        exact ⟨q, hmod, hrun⟩
  | setDonor p =>
      obtain rfl := Option.some.inj hs
      exact ⟨q, hq.congr rfl rfl (fun _ => rfl) fun _ _ _ => rfl, hrun⟩

/-- The agreement holds in every reachable state. -/
theorem FairReachable.inv {base : Nat} {s : FairState} (h : FairReachable base s) :
    ∃ q, FairInv base s q := by
  induction h with
  | init rq hcfs hrun hon =>
      refine ⟨fun _ => [], (FairQueues.init hcfs hon).imp fun p => ?_, ?_⟩
      · simp
      · simpa [Rq.initSchedFairClass, total] using hrun
  | step o _ hs ih =>
      obtain ⟨q, hq⟩ := ih
      exact fairStep_inv hq hs

/-- **The run queue of the fair class is consistent** in every reachable state: the bitmap
marks the buckets that are not empty, a task is marked queued exactly if it is, once, in the
list of its bucket, the counters and the contribution to `nr_running` are the number of
queued tasks, the pick is the front of the first bucket that is not empty, and enqueueing a
queued task or dequeueing another changes no counter. -/
theorem fair_runqueue_consistent {base : Nat} {s : FairState} (h : FairReachable base s) :
    ∃ q : Fin NR_TINY_PRIO → List Pid,
      Rings s.rq.tiny.links q ∧
      (∀ b : Fin NR_TINY_PRIO, s.rq.tiny.active b = true ↔ q b ≠ []) ∧
      (∀ p, (s.rq.tasks p).seOnRq = true ↔ ∃ b, p ∈ q b) ∧
      (∀ b p, p ∈ q b → b = tinyPrioOf (s.rq.tasks p) ∧ (q b).count p = 1) ∧
      s.rq.cfs.nrQueued = total q ∧ s.rq.cfs.hNrQueued = total q ∧
      s.rq.nrRunning = base + total q ∧
      (s.rq.pickTaskFair = none ↔ total q = 0) ∧
      (∀ n, s.rq.pickTaskFair = some n →
        ∃ b p l, n = .elem p ∧ q b = p :: l ∧ ∀ b' < b, q b' = []) ∧
      (∀ p f, s.forked p = true → (s.rq.tasks p).seOnRq = true →
        (s.rq.enqueueTaskFair p f).cfs = s.rq.cfs ∧
          (s.rq.enqueueTaskFair p f).nrRunning = s.rq.nrRunning) ∧
      ∀ p f, s.forked p = true → (s.rq.tasks p).seOnRq = false →
        (s.rq.dequeueTaskFair p f).cfs = s.rq.cfs ∧
          (s.rq.dequeueTaskFair p f).nrRunning = s.rq.nrRunning := by
  obtain ⟨q, hq, hrun⟩ := h.inv
  refine ⟨q, hq.rings, hq.active, hq.onRq, fun b p hm => ?_, hq.nrQueued, hq.hNrQueued,
    hrun, ?_, fun n hn => hq.pick_some hn, fun p f hf hon => ?_, fun p f hf hon => ?_⟩
  · exact ⟨(hq.bucket hm).symm, List.count_eq_one_of_mem (hq.rings.nodup b) hm⟩
  · rw [hq.pick_none, total_eq_zero]
  · rw [hq.enqueue_queued hon]
    exact ⟨rfl, rfl⟩
  · rw [hq.dequeue_alone hf hon]
    exact ⟨rfl, rfl⟩

/-- The states of a run are reachable. -/
theorem FairReachable.run {base : Nat} {s s' : FairState} (h : FairReachable base s)
    {os : List FairOp} (hs : os.foldlM fairStep s = some s') : FairReachable base s' := by
  induction os generalizing s with
  | nil =>
      obtain rfl := Option.some.inj hs
      exact h
  | cons o os ih =>
      obtain ⟨s₁, hs₁, hs⟩ := Option.bind_eq_some_iff.mp hs
      exact ih (h.step o hs₁) hs

/-- Two tasks are forked and woken, and the one that runs is charged for a tick. -/
theorem fair_runqueue_consistent_two : ∃ s : FairState,
    [.fork 1 {}, .fork 2 {}, .enqueue 1 {}, .enqueue 2 {}, .setDonor 1, .tick].foldlM fairStep
        ⟨bootRq.initSchedFairClass, fun _ => false⟩ = some s ∧
      s.rq.cfs.nrQueued = 2 ∧ ∃ q, Rings s.rq.tiny.links q ∧ s.rq.cfs.nrQueued = total q := by
  have hinit : FairReachable 0 ⟨bootRq.initSchedFairClass, fun _ => false⟩ :=
    .init _ rfl rfl fun p => (bootRq_alone p).1
  have hrun : [.fork 1 {}, .fork 2 {}, .enqueue 1 {}, .enqueue 2 {}, .setDonor 1, .tick].foldlM
      fairStep ⟨bootRq.initSchedFairClass, fun _ => false⟩ = some _ := rfl
  obtain ⟨q, hr, -, -, -, hn, -⟩ := fair_runqueue_consistent (hinit.run hrun)
  exact ⟨_, hrun, rfl, q, hr, hn⟩

end Adbd.Sched
