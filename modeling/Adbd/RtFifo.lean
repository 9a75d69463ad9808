import Adbd.Runs
import Adbd.TinyRt

/-!
# First In, First Out in the Real-Time Class

Among tasks of one priority the real-time class is first in, first out: a task that is ahead
of another stays ahead until it yields, blocks or is given a higher priority. `core.c`
brackets every change of a queued task by a dequeue and an enqueue, and tells the class by
flags what the bracket is for: without `MOVE` nothing about the priority changed and the
task keeps its place, and with `ENQUEUE_HEAD` a task whose priority went down, such as one
that returns from a priority-inheritance boost, is first in its new list.
`enqueue_task_rt` does not look at the flags: every bracket puts its task last.

## Main definitions

* `RtAct`, `rtAct`: wake-ups, blocking, yields and brackets, with the flags of `core.c`.
* `Ahead`, `FifoLaw`: a task is ahead of another; it is so whenever both are in one list.
* `Leaves`, `Requeues`: the steps that end a task's claim to its place; the brackets that
  put a task into a list that has the other one.

## Main results

* `rt_fifo_iff`: a run keeps two tasks in order exactly if none of its brackets requeues the
  first one behind the second.
-/

namespace Adbd.Sched

open ListHead Runs

variable {rq rq' : Rq} {q : Fin MAX_RT_PRIO → List Pid} {a b p : Pid} {i : Fin MAX_RT_PRIO}

/-! ### What `core.c` does -/

/-- The steps of `core.c` on tasks of the class. -/
inductive RtAct where
  | wake (p : Pid)
  | block (p : Pid)
  | yield
  | change (p : Pid) (prio : Nat)
  | pick (p : Pid)

/-- The flags of a bracket around a change of priority: `MOVE` if there is one, and
`ENQUEUE_HEAD` if the number goes up, which is a lower priority. -/
def bracketFlags (old new : Nat) : Flags :=
  { restore := true, move := decide (old ≠ new), head := decide (old < new) }

/-- One step of `core.c`. A change of a queued task is a bracket; a task that leaves the
class is not enqueued again, and one that joins it is woken into it. -/
def rtAct (rq : Rq) : RtAct → Option Rq
  | .wake p =>
      if (rq.tasks p).prio < MAX_RT_PRIO then some (rq.enqueueTaskRt p { wakeup := true })
        else none
  | .block p => some (rq.dequeueTaskRt p { wakeup := true })
  | .yield => some rq.yieldTaskRt
  | .change p prio =>
      let f := bracketFlags (rq.tasks p).prio prio
      let moved := (rq.dequeueTaskRt p f).modTask p fun T => { T with prio := prio }
      if (rq.tasks p).rtOnRq = true ∧ prio < MAX_RT_PRIO then some (moved.enqueueTaskRt p f)
      else some moved
  | .pick p => some { rq with donor := p }

/-- Task `a` is ahead of `b` in the list of their priority. -/
def Ahead (rq : Rq) (a b : Pid) : Prop :=
  ∃ q i, Rings rq.rt.links q ∧ [a, b].Sublist (q i)

/-- Whenever `a` and `b` are queued with one priority, `a` is ahead of `b`. -/
def FifoLaw (a b : Pid) (rq : Rq) : Prop :=
  (rq.tasks a).rtOnRq = true → (rq.tasks b).rtOnRq = true →
    (rq.tasks a).prio = (rq.tasks b).prio → Ahead rq a b

/-- The steps that end the claim of `a` to its place: it yields, blocks, or is given a
higher priority. -/
def Leaves (a : Pid) (rq : Rq) : RtAct → Prop
  | .yield => rq.donor = a
  | .block p => p = a
  | .change p prio => p = a ∧ prio < (rq.tasks a).prio
  | _ => False

/-- A bracket on `a` that puts it into a list that has `b`. -/
def Requeues (a b : Pid) (rq : Rq) : RtAct → Prop
  | .change p prio =>
      p = a ∧ (rq.tasks a).rtOnRq = true ∧ (rq.tasks b).rtOnRq = true ∧
      (rq.tasks b).prio = prio
  | _ => False

/-! ### Steps -/

/-- The law, in terms of the contents of the lists. -/
theorem fifoLaw_iff (h : RtQueues rq q) : FifoLaw a b rq ↔ Ordered a b q := by
  constructor
  · intro hlaw i ha hb
    have hprio : (rq.tasks a).prio = (rq.tasks b).prio := (h.prio ha).trans (h.prio hb).symm
    obtain ⟨q', j, hr, hsub⟩ := hlaw ((h.onRq a).mpr ⟨i, ha⟩) ((h.onRq b).mpr ⟨i, hb⟩) hprio
    obtain rfl := h.rings.unique hr
    obtain rfl : i = j := h.rings.disjoint ha (hsub.subset (by simp))
    exact hsub
  · intro hord ha hb hprio
    have hlt := h.prio_lt ha
    have ha' := h.mem ha hlt
    have hb' := h.mem hb (hprio ▸ hlt)
    have hi : (⟨(rq.tasks b).prio, hprio ▸ hlt⟩ : Fin MAX_RT_PRIO) =
      ⟨(rq.tasks a).prio, hlt⟩ :=
      Fin.ext hprio.symm
    exact ⟨q, _, h.rings, hord _ ha' (hi ▸ hb')⟩

/-- What a bracket does: the task is taken out of its list and put at the end of the list of
its new priority. -/
theorem RtQueues.bracket (h : RtQueues rq q) (f : Flags) (prio : Nat)
    (hon : (rq.tasks p).rtOnRq = true) (hlt : (rq.tasks p).prio < MAX_RT_PRIO) :
    RtQueues ((rq.dequeueTaskRt p f).modTask p fun T => { T with prio := prio })
        (Function.update q ⟨(rq.tasks p).prio, hlt⟩ ((q ⟨(rq.tasks p).prio, hlt⟩).erase p)) ∧
      ∀ hlt' : prio < MAX_RT_PRIO,
        RtQueues (((rq.dequeueTaskRt p f).modTask p fun T =>
          { T with prio := prio }).enqueueTaskRt p f)
          (Function.update
            (Function.update q ⟨(rq.tasks p).prio, hlt⟩ ((q ⟨(rq.tasks p).prio, hlt⟩).erase p))
            ⟨prio, hlt'⟩
            (Function.update q ⟨(rq.tasks p).prio, hlt⟩ ((q ⟨(rq.tasks p).prio, hlt⟩).erase p)
              ⟨prio, hlt'⟩ ++ [p])) := by
  have hdeq := h.dequeue (f := f) hon hlt
  have hoff : ((rq.dequeueTaskRt p f).tasks p).rtOnRq = false := by
    simp [Rq.dequeueTaskRt, hon]
  have hmod : RtQueues ((rq.dequeueTaskRt p f).modTask p fun T => { T with prio := prio })
      (Function.update q ⟨(rq.tasks p).prio, hlt⟩ ((q ⟨(rq.tasks p).prio, hlt⟩).erase p)) :=
    hdeq.modTask rfl fun hon' => by rw [hoff] at hon'; cases hon'
  refine ⟨hmod, fun hlt' => ?_⟩
  have henq := hmod.enqueue (p := p) (f := f) (by simpa using hoff) (by simpa using hlt')
  simpa using henq

/-- Task `a` is queued, or it has left the class. -/
def InClass (a : Pid) (rq : Rq) : Prop :=
  (rq.tasks a).rtOnRq = true ∨ (rq.tasks a).rtOnRq = false ∧ MAX_RT_PRIO ≤ (rq.tasks a).prio

/-- Whether a task is queued or has left depends on its own fields. -/
theorem InClass.congr (h : InClass a rq) (hon : (rq'.tasks a).rtOnRq = (rq.tasks a).rtOnRq)
    (hprio : (rq'.tasks a).prio = (rq.tasks a).prio) : InClass a rq' := by
  rw [InClass, hon, hprio]
  exact h

/-- **A step keeps the order** of `a` and `b` unless `a` gives up its place or is requeued
behind `b`. -/
theorem rtAct_keeps {x : RtAct} (h : RtQueues rq q) (hin : InClass a rq) (hord : Ordered a b q)
    (hab : b ≠ a) (hl : ¬Leaves a rq x) (hr : ¬Requeues a b rq x)
    (hs : rtAct rq x = some rq') :
    ∃ q', RtQueues rq' q' ∧ Ordered a b q' ∧ InClass a rq' := by
  cases x with
  | wake p =>
      simp only [rtAct] at hs
      split at hs
      · next hlt =>
        obtain rfl := Option.some.inj hs
        by_cases hon : (rq.tasks p).rtOnRq = true
        · rw [RtQueues.enqueue_queued hon]
          exact ⟨q, h, hord, hin⟩
        · have hon' : (rq.tasks p).rtOnRq = false := by simpa using hon
          have hpa : p ≠ a := by
            rintro rfl
            rcases hin with hin | ⟨-, hge⟩
            · exact hon hin
            · omega
          refine ⟨_, h.enqueue hon' hlt, hord.append hpa (h.not_mem hon'), ?_⟩
          exact hin.congr (by simp [Rq.enqueueTaskRt, hon', Rq.modTask, hpa.symm])
            (by simp [Rq.enqueueTaskRt, hon', Rq.modTask, hpa.symm])
      · cases hs
  | block p =>
      obtain rfl := Option.some.inj hs
      have hpa : p ≠ a := hl
      by_cases hon : (rq.tasks p).rtOnRq = true
      · have hlt := h.prio_lt hon
        refine ⟨_, h.dequeue hon hlt, hord.erase h.rings (h.mem hon hlt), ?_⟩
        exact hin.congr (by simp [Rq.dequeueTaskRt, hon, Rq.modTask, hpa.symm])
          (by simp [Rq.dequeueTaskRt, hon, Rq.modTask, hpa.symm])
      · rw [RtQueues.dequeue_alone (by simpa using hon)]
        exact ⟨q, h, hord, hin⟩
  | yield =>
      obtain rfl := Option.some.inj hs
      have hpa : rq.donor ≠ a := hl
      by_cases hon : (rq.tasks rq.donor).rtOnRq = true
      · have hlt := h.prio_lt hon
        have htasks : rq.yieldTaskRt.tasks = rq.tasks := by
          unfold Rq.yieldTaskRt
          split <;> rfl
        refine ⟨_, h.yield hon hlt, hord.move h.rings (h.mem hon hlt) hpa, ?_⟩
        exact hin.congr (by rw [htasks]) (by rw [htasks])
      · rw [RtQueues.yield_alone (by simpa using hon)]
        exact ⟨q, h, hord, hin⟩
  | change p prio =>
      simp only [rtAct] at hs
      by_cases hon : (rq.tasks p).rtOnRq = true
      · have hlt := h.prio_lt hon
        have hm := h.mem hon hlt
        obtain ⟨hout, hback⟩ := h.bracket (bracketFlags (rq.tasks p).prio prio) prio hon hlt
        have hord' := hord.erase h.rings hm
        have hnot := h.rings.not_mem_erase hm
        by_cases hlt' : prio < MAX_RT_PRIO
        · rw [if_pos ⟨hon, hlt'⟩] at hs
          obtain rfl := Option.some.inj hs
          refine ⟨_, hback hlt', ?_, ?_⟩
          · by_cases hpa : p = a
            · subst hpa
              -- the list `a` goes to does not have `b`
              refine Ordered.append_self (fun hb => hr ⟨rfl, hon, ?_⟩) hab hnot
              obtain ⟨hb, -⟩ := (h.rings.mem_update_erase hm).mp hb
              exact ⟨(h.onRq b).mpr ⟨_, hb⟩, h.prio hb⟩
            · exact hord'.append hpa hnot
          · by_cases hpa : a = p
            · subst hpa
              exact .inl (by simp [Rq.enqueueTaskRt, Rq.dequeueTaskRt, hon])
            · exact hin.congr
                (by simp [Rq.enqueueTaskRt, Rq.dequeueTaskRt, hon, Rq.modTask, hpa])
                (by simp [Rq.enqueueTaskRt, Rq.dequeueTaskRt, hon, Rq.modTask, hpa])
        · rw [if_neg fun hc => hlt' hc.2] at hs
          obtain rfl := Option.some.inj hs
          refine ⟨_, hout, hord', ?_⟩
          by_cases hpa : a = p
          · subst hpa
            exact .inr ⟨by simp [Rq.dequeueTaskRt, hon], by simpa using hlt'⟩
          · exact hin.congr (by simp [Rq.dequeueTaskRt, hon, Rq.modTask, hpa])
              (by simp [Rq.dequeueTaskRt, hon, Rq.modTask, hpa])
      · have hon' : (rq.tasks p).rtOnRq = false := by simpa using hon
        rw [if_neg fun hc => hon hc.1, RtQueues.dequeue_alone hon'] at hs
        obtain rfl := Option.some.inj hs
        refine ⟨q, h.modTask rfl fun hc => absurd hc hon, hord, ?_⟩
        by_cases hpa : a = p
        · subst hpa
          rcases hin with hin | ⟨-, hge⟩
          · exact absurd hin hon
          · have hnot : ¬prio < (rq.tasks a).prio := fun hlt => hl ⟨rfl, hlt⟩
            exact .inr ⟨by simpa using hon', by simp; omega⟩
        · exact hin.congr (by simp [Rq.modTask, hpa]) (by simp [Rq.modTask, hpa])
  | pick p =>
      obtain rfl := Option.some.inj hs
      exact ⟨q, h.congr rfl (fun _ => rfl) fun _ _ _ => rfl, hord, hin⟩

/-- A bracket that puts `a` into a list that has `b` puts it behind `b`. -/
theorem rtAct_breaks {x : RtAct} (h : RtQueues rq q) (hab : b ≠ a) (hr : Requeues a b rq x)
    (hs : rtAct rq x = some rq') : ¬FifoLaw a b rq' := by
  cases x with
  | change p prio =>
      obtain ⟨rfl, hon, honb, rfl⟩ := hr
      have hlt := h.prio_lt hon
      have hlt' := h.prio_lt honb
      have hm := h.mem hon hlt
      simp only [rtAct] at hs
      rw [if_pos ⟨hon, hlt'⟩] at hs
      obtain rfl := Option.some.inj hs
      obtain ⟨-, hback⟩ := h.bracket (bracketFlags (rq.tasks p).prio (rq.tasks b).prio)
        (rq.tasks b).prio hon hlt
      rw [fifoLaw_iff (hback hlt')]
      intro hord
      have hb : b ∈ Function.update q ⟨(rq.tasks p).prio, hlt⟩
          ((q ⟨(rq.tasks p).prio, hlt⟩).erase p) ⟨(rq.tasks b).prio, hlt'⟩ :=
        (h.rings.mem_update_erase hm).mpr ⟨h.mem honb hlt', hab⟩
      have hsub := hord ⟨(rq.tasks b).prio, hlt'⟩ (by simp) (by simp [hb])
      rw [Function.update_self] at hsub
      exact not_sublist_append (h.rings.not_mem_erase hm _) hsub
  | wake | block | yield | pick => exact hr.elim

/-- Along a run in which `a` keeps its claim, the order is kept exactly if `a` is never
requeued behind `b`. -/
theorem along_fifoLaw_iff (h : RtQueues rq q) (hin : InClass a rq) (hord : Ordered a b q)
    (hab : b ≠ a) (xs : List RtAct)
    (hl : AlongSteps rtAct (fun rq x => ¬Leaves a rq x) rq xs) :
    Along rtAct (FifoLaw a b) rq xs ↔
      AlongSteps rtAct (fun rq x => ¬Requeues a b rq x) rq xs := by
  refine along_iff_of_invariant
    (I := fun rq => ∃ q, RtQueues rq q ∧ Ordered a b q ∧ InClass a rq) ?_ ?_ ?_
    ⟨q, h, hord, hin⟩ hl
  · rintro rq ⟨q, h, hord, -⟩
    exact (fifoLaw_iff h).mpr hord
  · rintro rq x rq' ⟨q, h, hord, hin⟩ hl hr hs
    exact rtAct_keeps h hin hord hab hl hr hs
  · rintro rq x rq' ⟨q, h, -, -⟩ - hr hs
    exact rtAct_breaks h hab (not_not.mp hr) hs

/-- Two tasks of one priority that were woken one after the other. -/
def pairRq : Rq :=
  (((bootRq.initRtRq.modTask 1 fun T => { T with prio := 50 }).modTask 2 fun T =>
    { T with prio := 50 }).enqueueTaskRt 1 { wakeup := true }).enqueueTaskRt 2
      { wakeup := true }

/-- That state is reachable. -/
theorem pairRq_reachable : RtReachable 0 pairRq := by
  have hinit : RtReachable 0 bootRq.initRtRq := .init _ rfl fun p => (bootRq_alone p).2.1
  have hrun : [.setPrio 1 50, .setPrio 2 50, .enqueue 1 { wakeup := true },
      .enqueue 2 { wakeup := true }].foldlM rtStep bootRq.initRtRq = some pairRq := rfl
  exact hinit.run hrun

/-- The task that was woken first is ahead. -/
theorem pairRq_ahead : Ahead pairRq 1 2 := by
  have h₀ :
    RtQueues ((bootRq.initRtRq.modTask 1 fun T => { T with prio := 50 }).modTask 2 fun T =>
      { T with prio := 50 }) fun _ => [] := by
    refine RtQueues.modTask
      (RtQueues.modTask (RtQueues.init fun p => (bootRq_alone p).2.1) rfl ?_)
      rfl ?_
    · intro hon
      cases hon
    · intro hon
      cases hon
  have h₁ := h₀.enqueue (p := 1) (f := { wakeup := true }) rfl (by decide)
  have h₂ := h₁.enqueue (p := 2) (f := { wakeup := true }) rfl (by decide)
  exact ⟨_, ⟨50, by decide⟩, h₂.rings, List.Sublist.refl [1, 2]⟩

/-- A bracket that changes nothing, such as one around a change of affinity, puts the first
task behind the second. -/
theorem affinity_bracket_requeues :
    RtReachable 0 pairRq ∧ Ahead pairRq 1 2 ∧ ¬Leaves 1 pairRq (.change 1 50) ∧
      bracketFlags (pairRq.tasks 1).prio 50 = { restore := true } ∧
      ∃ rq', rtAct pairRq (.change 1 50) = some rq' ∧ ¬FifoLaw 1 2 rq' := by
  obtain ⟨q, hq, -⟩ := pairRq_reachable.inv
  refine ⟨pairRq_reachable, pairRq_ahead, fun hl => absurd hl.2 (by decide), by decide,
    _, rfl, ?_⟩
  have hreq : Requeues 1 2 pairRq (.change 1 50) := ⟨rfl, rfl, rfl, rfl⟩
  exact rtAct_breaks hq (by decide) hreq rfl

/-- **First in, first out** among the tasks of one priority, from every reachable state. A
run in which `a` neither yields nor blocks nor is given a higher priority keeps `a` ahead of
`b` exactly if no bracket puts `a` into a list that has `b`; and the end of a boost, which is
enqueued with `ENQUEUE_HEAD`, puts `a` ahead of the tasks of its list exactly if there is
none. -/
theorem rt_fifo_iff {base : Nat} {rq : Rq} (h : RtReachable base rq) :
    (∀ a b, Ahead rq a b → ∀ xs, AlongSteps rtAct (fun rq x => ¬Leaves a rq x) rq xs →
      (Along rtAct (FifoLaw a b) rq xs ↔
        AlongSteps rtAct (fun rq x => ¬Requeues a b rq x) rq xs)) ∧
    ∀ a prio rq', (rq.tasks a).rtOnRq = true → (rq.tasks a).prio < prio →
      rtAct rq (.change a prio) = some rq' →
      ((∀ b, b ≠ a → FifoLaw a b rq') ↔ ∀ b, b ≠ a → ¬Requeues a b rq (.change a prio)) := by
  obtain ⟨q, hq, -⟩ := h.inv
  constructor
  · rintro a b ⟨q', i, hr, hsub⟩ xs hl
    obtain rfl := hq.rings.unique hr
    have ha : a ∈ q i := hsub.subset (by simp)
    have hb : b ∈ q i := hsub.subset (by simp)
    have hab : b ≠ a := by
      have hnd := (hq.rings.nodup i).sublist hsub
      rintro rfl
      simp at hnd
    refine along_fifoLaw_iff hq (.inl ((hq.onRq a).mpr ⟨i, ha⟩))
      (fun j ha' hb' => ?_) hab xs hl
    obtain rfl := hq.rings.disjoint ha ha'
    exact hsub
  · intro a prio rq' hon hlt hs
    constructor
    · intro hlaw b hab hr
      exact rtAct_breaks hq hab hr hs (hlaw b hab)
    · intro hreq b hab ha hb hprio
      -- a task with which `a` shares a list after the bracket was in that list before
      exfalso
      have hother : rq'.tasks b = rq.tasks b := by
        simp only [rtAct] at hs
        split at hs
        · obtain rfl := Option.some.inj hs
          simp [Rq.enqueueTaskRt, Rq.dequeueTaskRt, hon, Rq.modTask, hab]
        · obtain rfl := Option.some.inj hs
          simp [Rq.dequeueTaskRt, hon, Rq.modTask, hab]
      have hself : (rq'.tasks a).prio = prio := by
        simp only [rtAct] at hs
        split at hs
        · obtain rfl := Option.some.inj hs
          simp [Rq.enqueueTaskRt, Rq.dequeueTaskRt, hon]
        · obtain rfl := Option.some.inj hs
          simp
      rw [hother] at hb hprio
      exact hreq b hab ⟨rfl, hon, hb, by rw [← hprio, hself]⟩

/-- The affinity of the second task changes, and it blocks and is woken again: it stays behind
the first. -/
theorem rt_fifo_block_wake :
    Along rtAct (FifoLaw 1 2) pairRq [.change 2 50, .block 2, .wake 2] := by
  have hother : (2 : Pid) ≠ 1 := by decide
  refine ((rt_fifo_iff pairRq_reachable).1 1 2 pairRq_ahead _ ?_).mpr ?_
  · exact fun _ _ => ⟨fun h => hother h.1, fun _ _ => ⟨hother, fun _ _ => ⟨id, trivial⟩⟩⟩
  · exact fun _ _ => ⟨fun h => hother h.1, fun _ _ => ⟨id, fun _ _ => ⟨id, trivial⟩⟩⟩

end Adbd.Sched
