import Adbd.Preemption

/-!
# The Accounting of Run Time

`update_curr_common` adds the time since `exec_start` of the running task to its
`sum_exec_runtime` and starts the next interval. The two tiny classes call it when they are
taken off the CPU, at ticks, when a statistic is asked for and, in the real-time class, when
any task is dequeued; `set_next_task` starts the first interval. The difference is taken as
a signed number, and one that is not positive is skipped: an interval of `2 ^ 63` ns is lost.

Everything else that happens to the run queue is arbitrary here, as long as it leaves the
donor.

## Main definitions

* `AcctRq`: the run queue with the clock and the statistics.
* `AcctRq.updateCurrCommon` and the callbacks that call it.
* `AcctStep`, `acctStep`: what happens between two changes of the donor, and such a change.
* `gain`, `served`: the time a step credits to a task; the time it lets the task run.

## Main results

* `AcctRq.updateCurrCommon_spec`: what the helper does with an interval in range.
* `acctStep_balance`: the balance of one step.
* `run_time_conserved`: the balance of a run.
-/

namespace Adbd.Sched

open Runs

/-- The run queue with `rq_clock_task` and the statistics of the tasks. -/
structure AcctRq extends Rq where
  clockTask : BitVec 64
  execStart : Pid → BitVec 64
  sumExecRuntime : Pid → BitVec 64

namespace AcctRq

/-- `update_curr_common`, with the time that it returns. -/
def updateCurrCommon (rq : AcctRq) : Int × AcctRq :=
  let p := rq.donor
  let now := rq.clockTask
  let delta := now - rq.execStart p
  -- the difference is an `s64`
  let deltaExec := delta.toInt
  if deltaExec ≤ 0 then (deltaExec, rq)
  else
    (deltaExec, { rq with
      execStart := Function.update rq.execStart p now
      sumExecRuntime := Function.update rq.sumExecRuntime p (rq.sumExecRuntime p + delta) })

/-- `put_prev_task_fair`. -/
def putPrevTaskFair (rq : AcctRq) (_p _next : Pid) : AcctRq := rq.updateCurrCommon.2

/-- `set_next_task_fair`. -/
def setNextTaskFair (rq : AcctRq) (p : Pid) : AcctRq :=
  { rq with
    toRq := rq.toRq.setNextTaskFair p
    execStart := Function.update rq.execStart p rq.clockTask }

/-- `task_tick_fair`. -/
def taskTickFair (rq : AcctRq) (p : Pid) : AcctRq :=
  { rq.updateCurrCommon.2 with toRq := rq.toRq.taskTickFair p }

/-- `update_curr_fair`. -/
def updateCurrFair (rq : AcctRq) : AcctRq := rq.updateCurrCommon.2

/-- `dequeue_task_rt`. -/
def dequeueTaskRt (rq : AcctRq) (p : Pid) (f : Flags) : AcctRq :=
  if (rq.tasks p).rtOnRq then { rq.updateCurrCommon.2 with toRq := rq.toRq.dequeueTaskRt p f }
  else rq

/-- `put_prev_task_rt`. -/
def putPrevTaskRt (rq : AcctRq) (_p _next : Pid) : AcctRq := rq.updateCurrCommon.2

/-- `set_next_task_rt`. -/
def setNextTaskRt (rq : AcctRq) (p : Pid) : AcctRq :=
  { rq with execStart := Function.update rq.execStart p rq.clockTask }

/-- `task_tick_rt`. -/
def taskTickRt (rq : AcctRq) (_p : Pid) : AcctRq := rq.updateCurrCommon.2

/-- `update_curr_rt`. -/
def updateCurrRt (rq : AcctRq) : AcctRq := rq.updateCurrCommon.2

/-- `p->sched_class->put_prev_task`. -/
def putPrevTask (rq : AcctRq) (p next : Pid) : AcctRq :=
  match (rq.tasks p).schedClass with
  | .fair => rq.putPrevTaskFair p next
  | .rt => rq.putPrevTaskRt p next
  | .idle => rq

/-- `p->sched_class->set_next_task`, behind which `p` is the donor. -/
def setNextTask (rq : AcctRq) (p : Pid) : AcctRq :=
  match (rq.tasks p).schedClass with
  | .fair => { rq.setNextTaskFair p with donor := p }
  | .rt => { rq.setNextTaskRt p with donor := p }
  | .idle => { rq with donor := p }

end AcctRq

/-- What happens: time passes, the donor changes, one of the callbacks that account is called,
or something else is done to the run queue. -/
inductive AcctStep where
  | clock (now : BitVec 64)
  | change (p : Pid)
  | tickFair (p : Pid)
  | tickRt (p : Pid)
  | updateFair
  | updateRt
  | dequeueRt (p : Pid) (f : Flags)
  | other (rq : Rq)

/-- One step. The clock does not go back, the donors are fair or real-time tasks, and nothing
but a change of the donor changes it. -/
def acctStep (rq : AcctRq) : AcctStep → Option AcctRq
  | .clock now => if rq.clockTask ≤ now then some { rq with clockTask := now } else none
  | .change p =>
      if (rq.tasks rq.donor).schedClass = .idle ∨ (rq.tasks p).schedClass = .idle then none
      else some ((rq.putPrevTask rq.donor p).setNextTask p)
  | .tickFair p => some (rq.taskTickFair p)
  | .tickRt p => some (rq.taskTickRt p)
  | .updateFair => some rq.updateCurrFair
  | .updateRt => some rq.updateCurrRt
  | .dequeueRt p f => some (rq.dequeueTaskRt p f)
  | .other rq' => if rq'.donor = rq.donor then some { rq with toRq := rq' } else none

/-- The step calls `update_curr_common`. -/
def Updates (rq : AcctRq) : AcctStep → Prop
  | .clock _ | .other _ => False
  | .dequeueRt p _ => (rq.tasks p).rtOnRq = true
  | .change _ | .tickFair _ | .tickRt _ | .updateFair | .updateRt => True

instance (rq : AcctRq) (a : AcctStep) : Decidable (Updates rq a) :=
  match a with
  | .clock _ | .other _ => .isFalse id
  | .dequeueRt p _ => inferInstanceAs (Decidable ((rq.tasks p).rtOnRq = true))
  | .change _ | .tickFair _ | .tickRt _ | .updateFair | .updateRt => .isTrue trivial

/-- An update comes before `2 ^ 63` ns have passed. -/
def InRange (rq : AcctRq) (a : AcctStep) : Prop :=
  Updates rq a → rq.clockTask.toNat < (rq.execStart rq.donor).toNat + 2 ^ 63

instance (rq : AcctRq) (a : AcctStep) : Decidable (InRange rq a) :=
  inferInstanceAs (Decidable (Updates rq a →
    rq.clockTask.toNat < (rq.execStart rq.donor).toNat + 2 ^ 63))

/-- The increment of `sum_exec_runtime` of a task in a step. -/
def gain (q : Pid) (rq : AcctRq) (_a : AcctStep) (rq' : AcctRq) : Nat :=
  (rq'.sumExecRuntime q - rq.sumExecRuntime q).toNat

/-- The time for which a step lets a task be the donor. -/
def served (q : Pid) (rq : AcctRq) (_a : AcctStep) (rq' : AcctRq) : Nat :=
  if rq.donor = q then rq'.clockTask.toNat - rq.clockTask.toNat else 0

/-- The clock at the last update in a run, or `t₀` if there was none. -/
def lastUpdate (t₀ : BitVec 64) : AcctRq → List AcctStep → BitVec 64
  | _, [] => t₀
  | rq, a :: as =>
      match acctStep rq a with
      | none => t₀
      | some rq' => lastUpdate (if Updates rq a then rq.clockTask else t₀) rq' as

/-! ### One update -/

variable {rq rq' : AcctRq} {a : AcctStep} {as : List AcctStep} {p q : Pid} {f : Flags}

/-- **The interval of the donor**, if it is in range, is added to its run time, and the next
one starts. -/
theorem AcctRq.updateCurrCommon_spec (hle : rq.execStart rq.donor ≤ rq.clockTask)
    (hrange : rq.clockTask.toNat < (rq.execStart rq.donor).toNat + 2 ^ 63) :
    rq.updateCurrCommon = (((rq.clockTask - rq.execStart rq.donor).toNat : Int),
      { rq with
        execStart := Function.update rq.execStart rq.donor rq.clockTask
        sumExecRuntime := Function.update rq.sumExecRuntime rq.donor
          (rq.sumExecRuntime rq.donor + (rq.clockTask - rq.execStart rq.donor)) }) := by
  have hsub := BitVec.toNat_sub_of_le hle
  have hint : (rq.clockTask - rq.execStart rq.donor).toInt =
      ((rq.clockTask - rq.execStart rq.donor).toNat : Int) :=
    BitVec.toInt_eq_toNat_of_lt (by omega)
  rw [AcctRq.updateCurrCommon, hint]
  split
  · next hzero =>
    have hclock : rq.clockTask = rq.execStart rq.donor :=
      BitVec.eq_of_toNat_eq (Nat.le_antisymm (by omega) hle)
    have hstart : Function.update rq.execStart rq.donor rq.clockTask = rq.execStart := by
      rw [hclock, Function.update_eq_self]
    have hsum : Function.update rq.sumExecRuntime rq.donor
        (rq.sumExecRuntime rq.donor + (rq.clockTask - rq.execStart rq.donor)) =
          rq.sumExecRuntime := by
      rw [hclock, BitVec.sub_self, BitVec.add_zero, Function.update_eq_self]
    rw [hstart, hsum]
  · rfl

/-! ### The balance -/

/-- The time for which a task is the donor that has not been credited to it. -/
def pending (q : Pid) (rq : AcctRq) : Nat :=
  if rq.donor = q then rq.clockTask.toNat - (rq.execStart q).toNat else 0

/-- The balance of a step: the donor is credited the time up to its last update, and every task
the time for which it runs, but for what is pending. -/
structure Balanced (rq : AcctRq) (a : AcctStep) (rq' : AcctRq) : Prop where
  started : rq'.execStart rq'.donor ≤ rq'.clockTask
  last : rq'.execStart rq'.donor = if Updates rq a then rq.clockTask else rq.execStart rq.donor
  total : gain rq.donor rq a rq' + (rq.execStart rq.donor).toNat =
    (rq'.execStart rq'.donor).toNat
  each : ∀ q, gain q rq a rq' + pending q rq' = served q rq a rq' + pending q rq

/-- A task that is not the donor gains nothing. -/
theorem Balanced.other (h : Balanced rq a rq') (hq : rq.donor ≠ q) : gain q rq a rq' = 0 := by
  have heach := h.each q
  rw [served, if_neg hq, pending, pending, if_neg hq] at heach
  omega

/-- What a task gains in a step while another one is the donor. -/
def idleGain (q : Pid) (rq : AcctRq) (a : AcctStep) (rq' : AcctRq) : Nat :=
  if rq.donor = q then 0 else gain q rq a rq'

/-- A step that only updates, and may change the donor. -/
theorem Balanced.of_update (hle : rq.execStart rq.donor ≤ rq.clockTask) (ha : Updates rq a)
    (hclock : rq'.clockTask = rq.clockTask) (hstart : rq'.execStart rq'.donor = rq.clockTask)
    (hsum : rq'.sumExecRuntime = Function.update rq.sumExecRuntime rq.donor
      (rq.sumExecRuntime rq.donor + (rq.clockTask - rq.execStart rq.donor))) :
    Balanced rq a rq' := by
  have hsub := BitVec.toNat_sub_of_le hle
  have hle' : (rq.execStart rq.donor).toNat ≤ rq.clockTask.toNat := hle
  have hdonor : gain rq.donor rq a rq' =
      rq.clockTask.toNat - (rq.execStart rq.donor).toNat := by
    rw [gain, hsum, Function.update_self, BitVec.add_comm, BitVec.add_sub_cancel, hsub]
  have hpending : ∀ q, pending q rq' = 0 := by
    intro q
    rw [pending]
    split
    · next hq => rw [← hq, hstart, hclock, Nat.sub_self]
    · rfl
  refine ⟨by rw [hstart, hclock]; exact BitVec.le_refl _, by rw [hstart, if_pos ha], ?_,
    fun q => ?_⟩
  · rw [hdonor, hstart]
    omega
  · rw [hpending, served, pending, hclock, Nat.sub_self, ite_self, Nat.add_zero, Nat.zero_add]
    split
    · next hq => rw [← hq, hdonor]
    · next hq =>
      rw [gain, hsum, Function.update_of_ne (Ne.symm hq), BitVec.sub_self]
      rfl

/-- A step that leaves the donor and the statistics, and may let time pass. -/
theorem Balanced.of_quiet (hle : rq.execStart rq.donor ≤ rq.clockTask) (ha : ¬Updates rq a)
    (hdonor : rq'.donor = rq.donor) (hclock : rq.clockTask ≤ rq'.clockTask)
    (hstart : rq'.execStart = rq.execStart) (hsum : rq'.sumExecRuntime = rq.sumExecRuntime) :
    Balanced rq a rq' := by
  have hle' : (rq.execStart rq.donor).toNat ≤ rq.clockTask.toNat := hle
  have hclock' : rq.clockTask.toNat ≤ rq'.clockTask.toNat := hclock
  have hgain : ∀ q, gain q rq a rq' = 0 := by
    intro q
    rw [gain, hsum, BitVec.sub_self]
    rfl
  refine ⟨?_, by rw [hstart, hdonor, if_neg ha], by rw [hgain, hstart, hdonor, Nat.zero_add],
    fun q => ?_⟩
  · rw [hstart, hdonor]
    exact BitVec.le_trans hle hclock
  · rw [hgain, served, pending, pending, hstart, hdonor]
    split
    · next hq =>
      subst hq
      omega
    · rfl

/-- A tick of the fair class does not change the donor. -/
theorem Rq.taskTickFair_donor (rq : Rq) (p : Pid) : (rq.taskTickFair p).donor = rq.donor := by
  unfold Rq.taskTickFair
  dsimp only
  split
  · rfl
  · split <;> rfl

/-- Nor does a dequeue of the real-time class. -/
theorem Rq.dequeueTaskRt_donor (rq : Rq) (p : Pid) (f : Flags) :
    (rq.dequeueTaskRt p f).donor = rq.donor := by
  unfold Rq.dequeueTaskRt
  dsimp only
  split <;> rfl

/-- The statistics do not touch the rest of the run queue. -/
theorem AcctRq.updateCurrCommon_toRq (rq : AcctRq) : rq.updateCurrCommon.2.toRq = rq.toRq := by
  rw [AcctRq.updateCurrCommon]
  split <;> rfl

/-- A callback that updates, and changes the queues. -/
theorem Balanced.of_callback (hle : rq.execStart rq.donor ≤ rq.clockTask) (ha : Updates rq a)
    (hrange : InRange rq a) {r : Rq} (hdonor : r.donor = rq.donor) :
    Balanced rq a { rq.updateCurrCommon.2 with toRq := r } := by
  rw [AcctRq.updateCurrCommon_spec hle (hrange ha)]
  refine .of_update hle ha rfl ?_ rfl
  rw [hdonor]
  exact Function.update_self ..

/-- A callback that only updates. -/
theorem Balanced.of_updateCurr (hle : rq.execStart rq.donor ≤ rq.clockTask) (ha : Updates rq a)
    (hrange : InRange rq a) : Balanced rq a rq.updateCurrCommon.2 :=
  .of_callback hle ha hrange (congrArg Rq.donor rq.updateCurrCommon_toRq)

/-- `put_prev_task` of a fair or a real-time task updates. -/
theorem AcctRq.putPrevTask_eq (h : (rq.tasks p).schedClass ≠ .idle) (next : Pid) :
    rq.putPrevTask p next = rq.updateCurrCommon.2 := by
  rw [AcctRq.putPrevTask]
  split
  · rfl
  · rfl
  · next hidle => exact absurd hidle h

/-- `set_next_task` of a fair or a real-time task starts its interval. -/
theorem AcctRq.setNextTask_spec (h : (rq.tasks p).schedClass ≠ .idle) :
    (rq.setNextTask p).donor = p ∧ (rq.setNextTask p).clockTask = rq.clockTask ∧
      (rq.setNextTask p).execStart p = rq.clockTask ∧
      (rq.setNextTask p).sumExecRuntime = rq.sumExecRuntime := by
  rw [AcctRq.setNextTask]
  split
  · exact ⟨rfl, rfl, Function.update_self .., rfl⟩
  · exact ⟨rfl, rfl, Function.update_self .., rfl⟩
  · next hidle => exact absurd hidle h

/-- **Every step has its balance**, if the interval of an update is in range. -/
theorem acctStep_balance (hle : rq.execStart rq.donor ≤ rq.clockTask) (hrange : InRange rq a)
    (h : acctStep rq a = some rq') : Balanced rq a rq' := by
  cases a with
  | clock now =>
      obtain ⟨hnow, hrq⟩ := Option.ite_none_right_eq_some.mp h
      obtain rfl := Option.some.inj hrq
      exact .of_quiet hle id rfl hnow rfl rfl
  | change p =>
      obtain ⟨hclass, hrq⟩ := Option.ite_none_left_eq_some.mp h
      obtain rfl := Option.some.inj hrq
      rw [not_or] at hclass
      have hp : (rq.updateCurrCommon.2.tasks p).schedClass ≠ .idle := by
        rw [AcctRq.updateCurrCommon_toRq]
        exact hclass.2
      obtain ⟨hdonor, hclock, hstart, hsum⟩ := AcctRq.setNextTask_spec hp
      rw [AcctRq.putPrevTask_eq hclass.1]
      have hspec := AcctRq.updateCurrCommon_spec hle (hrange trivial)
      refine .of_update hle trivial ?_ ?_ ?_
      · rw [hclock, hspec]
      · rw [hdonor, hstart, hspec]
      · rw [hsum, hspec]
  | tickFair p =>
      obtain rfl := Option.some.inj h
      exact .of_callback (a := .tickFair p) hle trivial hrange (rq.toRq.taskTickFair_donor p)
  | tickRt p =>
      obtain rfl := Option.some.inj h
      exact .of_updateCurr hle trivial hrange
  | updateFair =>
      obtain rfl := Option.some.inj h
      exact .of_updateCurr hle trivial hrange
  | updateRt =>
      obtain rfl := Option.some.inj h
      exact .of_updateCurr hle trivial hrange
  | dequeueRt p f =>
      obtain rfl := Option.some.inj h
      rw [AcctRq.dequeueTaskRt]
      split
      · next hon =>
        exact .of_callback (a := .dequeueRt p f) hle hon hrange
          (rq.toRq.dequeueTaskRt_donor p f)
      · next hon => exact .of_quiet hle hon rfl (BitVec.le_refl _) rfl rfl
  | other r =>
      obtain ⟨hdonor, hrq⟩ := Option.ite_none_right_eq_some.mp h
      obtain rfl := Option.some.inj hrq
      exact .of_quiet hle id hdonor (BitVec.le_refl _) rfl rfl

/-! ### Runs -/

/-- **The balance of a run**: what is credited to the donors is the time up to the last update,
and what is credited to a task is the time for which it was the donor, but for what is pending;
to the others nothing is. -/
theorem run_balance (hle : rq.execStart rq.donor ≤ rq.clockTask)
    (hrange : AlongSteps acctStep InRange rq as) {t : AcctRq}
    (hrun : as.foldlM acctStep rq = some t) :
    t.execStart t.donor ≤ t.clockTask ∧
      lastUpdate (rq.execStart rq.donor) rq as = t.execStart t.donor ∧
      tally acctStep (fun rq a rq' => gain rq.donor rq a rq') rq as +
        (rq.execStart rq.donor).toNat =
        (t.execStart t.donor).toNat ∧
      ∀ q, tally acctStep (idleGain q) rq as = 0 ∧
        tally acctStep (gain q) rq as + pending q t =
          tally acctStep (served q) rq as + pending q rq := by
  induction as generalizing rq with
  | nil =>
      obtain rfl := Option.some.inj hrun
      exact ⟨hle, rfl, Nat.zero_add _, fun _ => ⟨rfl, rfl⟩⟩
  | cons a as ih =>
      obtain ⟨rq', hstep, hrest⟩ := Option.bind_eq_some_iff.mp hrun
      obtain ⟨hin, hrange'⟩ := hrange rq' hstep
      have hbal := acctStep_balance hle hin hstep
      obtain ⟨hle', hlast, htotal, heach⟩ := ih hbal.started hrange' hrest
      refine ⟨hle', ?_, ?_, fun q => ⟨?_, ?_⟩⟩
      · rw [lastUpdate, hstep]
        dsimp only
        rw [← hbal.last]
        exact hlast
      · have := hbal.total
        rw [tally, hstep]
        dsimp only
        omega
      · have hidle : idleGain q rq a rq' = 0 := by
          rw [idleGain]
          split
          · rfl
          · next hq => exact hbal.other hq
        rw [tally, hstep]
        dsimp only
        rw [hidle, (heach q).1]
      · have hq := hbal.each q
        have hq' := (heach q).2
        rw [tally, tally, hstep]
        dsimp only
        omega

/-- The accounts of a run from `rq` to `t` that started at `t₀`: the increments of
`sum_exec_runtime` add up to the time up to the last update, as those of the donors do and no
other task has any; and those of each task add up to the time for which it was the donor, up to
the last update. -/
def Conserved (t₀ : BitVec 64) (rq : AcctRq) (as : List AcctStep) (t : AcctRq) : Prop :=
  tally acctStep (fun rq a rq' => gain rq.donor rq a rq') rq as + t₀.toNat =
      (lastUpdate t₀ rq as).toNat ∧
    (∀ q, tally acctStep (idleGain q) rq as = 0) ∧
    ∀ q, tally acctStep (gain q) rq as +
        (if t.donor = q then t.clockTask.toNat - (lastUpdate t₀ rq as).toNat else 0) =
      tally acctStep (served q) rq as

/-- **Run time is conserved** in every run that starts with a `set_next_task`, if no interval
is `2 ^ 63` ns or more when it is accounted. -/
theorem run_time_conserved (rq : AcctRq) (p : Pid) (as : List AcctStep) (t : AcctRq)
    (hp : (rq.tasks p).schedClass ≠ .idle)
    (hrange : AlongSteps acctStep InRange (rq.setNextTask p) as)
    (hrun : as.foldlM acctStep (rq.setNextTask p) = some t) :
    Conserved rq.clockTask (rq.setNextTask p) as t := by
  obtain ⟨hdonor, hclock, hstart, -⟩ := AcctRq.setNextTask_spec hp
  have hfirst : (rq.setNextTask p).execStart (rq.setNextTask p).donor = rq.clockTask := by
    rw [hdonor, hstart]
  obtain ⟨-, hlast, htotal, heach⟩ := run_balance
    (by rw [hfirst, hclock]; exact BitVec.le_refl _) hrange hrun
  rw [hfirst] at hlast htotal
  refine ⟨by rw [htotal, hlast], fun q => (heach q).1, fun q => ?_⟩
  have hq := (heach q).2
  have hnone : pending q (rq.setNextTask p) = 0 := by
    rw [pending]
    split
    · next hq => rw [← hq, hfirst, hclock, Nat.sub_self]
    · rfl
  have hpend : pending q t = if t.donor = q then
      t.clockTask.toNat - (lastUpdate rq.clockTask (rq.setNextTask p) as).toNat else 0 := by
    rw [pending, hlast]
    split
    · next hq => rw [hq]
    · rfl
  rw [← hpend, hq, hnone, Nat.add_zero]

/-- A run queue whose clock starts at zero. -/
def startRq : AcctRq :=
  { toRq := bootRq, clockTask := 0, execStart := fun _ => 0, sumExecRuntime := fun _ => 0 }

/-- Two fair tasks, one after the other. -/
theorem run_time_conserved_two : ∃ t,
    [.clock 5, .tickFair 1, .clock 7, .change 2, .clock 12, .updateFair].foldlM acctStep
      (startRq.setNextTask 1) = some t ∧
    Conserved startRq.clockTask (startRq.setNextTask 1)
      [.clock 5, .tickFair 1, .clock 7, .change 2, .clock 12, .updateFair] t :=
  ⟨_, rfl, run_time_conserved startRq 1
    [.clock 5, .tickFair 1, .clock 7, .change 2, .clock 12, .updateFair] _ (by decide)
      (by decide)
    rfl⟩

/-- A task that runs for `2 ^ 63` ns without an update is credited nothing. -/
theorem run_time_lost : ∃ t,
    [.clock 0x8000000000000000#64, .updateFair].foldlM acctStep
      (startRq.setNextTask 1) = some t ∧
    ¬Conserved startRq.clockTask (startRq.setNextTask 1) [.clock 0x8000000000000000#64,
      .updateFair] t :=
  ⟨_, rfl, fun h => absurd h.1 (by decide)⟩

end Adbd.Sched
