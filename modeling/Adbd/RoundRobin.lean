import Adbd.Preemption

/-!
# Round Robin inside a Bucket

The tasks of one bucket of the fair class take turns: `task_tick_fair` charges the running
task for a tick if another task is in its bucket, and after `TINY_DEFAULT_SLICE` ticks moves
it to the end of the bucket. The slice starts anew on every `set_next_task`, also when a
task returns from a preemption, while a preempted task keeps its place at the front. So the
time a task can run while another one of its bucket waits is bounded by a slice for each
time it is made the next task, and not by one slice.

## Main definitions

* `Waits`: a task is queued in a bucket and does not run.
* `charge`, `resumed`: the ticks a task is charged for; the calls of `set_next_task` on it.
* `Behind`: a task is in the bucket of another one, after it.

## Main results

* `Behind.not_picked`: a task that is behind another one is not picked.
* `coreStep_allows`: what one step takes from the slice of a task.
* `bucket_charges_le`: the bound over runs.
-/

namespace Adbd.Sched

open ListHead Runs

variable {rq rq' rq₁ : Rq} {p q r : Pid} {f : Flags}

/-! ### Charges -/

/-- The task is queued in a bucket of the fair class and does not run. -/
def Waits (q : Pid) (rq : Rq) : Prop := (rq.tasks q).seOnRq = true ∧ rq.donor ≠ q

instance (q : Pid) (rq : Rq) : Decidable (Waits q rq) := instDecidableAnd

/-- The step takes the task off its queue, to change it. -/
def Changes (q : Pid) : CoreStep → Prop
  | .change p _ _ _ => p = q
  | _ => False

instance (q : Pid) (a : CoreStep) : Decidable (Changes q a) :=
  match a with
  | .change p _ _ _ => inferInstanceAs (Decidable (p = q))
  | .wake _ | .block | .tick | .yield | .pick => inferInstanceAs (Decidable False)

/-- The ticks the step charges to task `p` as a task of the bucket of `q`. A tick while a
reschedule is pending is not counted: the task was told to leave. -/
def charge (p q : Pid) (rq : Rq) (a : CoreStep) (_rq' : Rq) : Nat :=
  match a with
  | .tick =>
      if rq.donor = p ∧ (rq.tasks p).schedClass = .fair ∧ rq.tinyPrio p = rq.tinyPrio q ∧
        rq.needResched = false then 1 else 0
  | _ => 0

/-- The calls of `set_next_task` on task `p` in a step: a pick of a task that did not run
before, or a change of the running task. -/
def resumed (p : Pid) (rq : Rq) (a : CoreStep) (rq' : Rq) : Nat :=
  if rq'.donor = p ∧ (rq.donor ≠ p ∨ Changes p a) then 1 else 0

/-! ### The order of the buckets -/

/-- The fair queues change in such a way that what is behind `q` stays behind it. -/
def Keeps (q : Pid) (rq rq' : Rq) : Prop :=
  ∀ Q, FairQueues (fun _ => True) rq Q →
    ∃ Q', FairQueues (fun _ => True) rq' Q' ∧ ∀ x, Ordered q x Q → Ordered q x Q'

namespace Keeps

theorem trans (h : Keeps q rq rq₁) (h' : Keeps q rq₁ rq') : Keeps q rq rq' := by
  intro Q hQ
  obtain ⟨Q₁, hQ₁, hord₁⟩ := h Q hQ
  obtain ⟨Q', hQ', hord⟩ := h' Q₁ hQ₁
  exact ⟨Q', hQ', fun x hx => hord x (hord₁ x hx)⟩

/-- The queues are the same. -/
theorem congr (htiny : rq'.tiny = rq.tiny) (hcfs : rq'.cfs = rq.cfs)
    (hon : ∀ x, (rq'.tasks x).seOnRq = (rq.tasks x).seOnRq)
    (hprio : ∀ x, (rq.tasks x).seOnRq = true → rq'.tinyPrio x = rq.tinyPrio x) :
    Keeps q rq rq' := by
  intro Q hQ
  refine ⟨Q, hQ.congr htiny hcfs hon fun b x hx => hprio x ?_, fun _ hx => hx⟩
  exact (hQ.onRq x).mpr ⟨b, hx⟩

theorem enqueueTask (hp : p ≠ q) : Keeps q rq (rq.enqueueTask p f) := by
  intro Q hQ
  rcases hQ.enqueueTask with hQ' | ⟨hon, hQ'⟩
  · exact ⟨Q, hQ', fun _ hx => hx⟩
  · exact ⟨_, hQ', fun x hx => hx.append hp (hQ.not_mem hon)⟩

theorem dequeueTask : Keeps q rq (rq.dequeueTask p f) := by
  intro Q hQ
  rcases hQ.dequeueTask with hQ' | ⟨hon, hQ'⟩
  · exact ⟨Q, hQ', fun _ hx => hx⟩
  · exact ⟨_, hQ', fun x hx => hx.erase hQ.rings (hQ.mem hon)⟩

theorem yieldTask (hp : rq.donor ≠ q) : Keeps q rq rq.yieldTask := by
  intro Q hQ
  rcases hQ.yieldTask with hQ' | ⟨hon, hQ'⟩
  · exact ⟨Q, hQ', fun _ hx => hx⟩
  · exact ⟨_, hQ', fun x hx => hx.move hQ.rings (hQ.mem hon) hp⟩

theorem tick (hon : (rq.tasks p).seOnRq = true) (hp : p ≠ q) :
    Keeps q rq (rq.taskTickFair p) := by
  intro Q hQ
  rcases hQ.tick hon with hQ' | hQ'
  · exact ⟨Q, hQ', fun _ hx => hx⟩
  · exact ⟨_, hQ', fun x hx => hx.move hQ.rings (hQ.mem hon) hp⟩

end Keeps

/-- Task `p` is queued in the bucket of `q`, after it. -/
structure Behind (p q : Pid) (rq : Rq) : Prop where
  seOnRq : (rq.tasks p).seOnRq = true
  bucket : rq.tinyPrio p = rq.tinyPrio q
  ordered : ∃ Q, FairQueues (fun _ => True) rq Q ∧ Ordered q p Q

namespace Behind

/-- A task stays behind another one. -/
theorem keep (h : Behind p q rq) (hk : Keeps q rq rq') (hon : (rq'.tasks p).seOnRq = true)
    (hbucket : rq'.tinyPrio p = rq'.tinyPrio q) : Behind p q rq' := by
  obtain ⟨Q, hQ, hord⟩ := h.ordered
  obtain ⟨Q', hQ', hord'⟩ := hk Q hQ
  exact ⟨hon, hbucket, Q', hQ', hord' p hord⟩

/-- **A task that is behind another one is not picked.** -/
theorem not_picked (h : Behind p q rq) (hm : Marked rq) (hq : (rq.tasks q).seOnRq = true)
    (hpq : p ≠ q) : rq.pickNextTask ≠ some p := by
  intro hnext
  obtain ⟨Q, hQ, hord⟩ := h.ordered
  obtain ⟨r, hr⟩ := hm.rt
  have hp := hQ.mem h.seOnRq
  have hq' := hQ.mem hq
  rw [← h.bucket] at hq'
  unfold Rq.pickNextTask at hnext
  split at hnext
  · next x hx =>
    obtain rfl := Option.some.inj hnext
    obtain ⟨i, x', l, heq, hi, -⟩ := hr.pick_some hx
    obtain rfl := Node.elem.inj heq
    have hrt := (hm.rtOnRq x).mp ((hr.onRq x).mpr ⟨i, by simp [hi]⟩)
    have hse := (hm.seOnRq x).mp h.seOnRq
    rw [hrt.2] at hse
    cases hse.2
  · cases hnext
  split at hnext
  · next x hx =>
    obtain rfl := Option.some.inj hnext
    obtain ⟨b, x', l, heq, hb, -⟩ := hQ.pick_some hx
    obtain rfl := Node.elem.inj heq
    have hbucket := hQ.bucket (b := b) (p := x) (by simp [hb])
    subst hbucket
    -- the front of a list without repetitions is behind nothing
    have hsub := hord _ hq' hp
    have hnd := hQ.rings.nodup (rq.tinyPrio x)
    rw [hb] at hsub hnd
    rcases List.sublist_cons_iff.mp hsub with hsub | ⟨l', heq', -⟩
    · exact (List.nodup_cons.mp hnd).1 (hsub.subset (by simp))
    · exact hpq (List.cons.inj heq').1.symm
  · cases hnext
  · obtain rfl := Option.some.inj hnext
    have := (hm.seOnRq 0).mp h.seOnRq
    rw [hm.idle.2] at this
    cases this.1

end Behind

/-! ### Slices -/

/-- No task has more than a full slice. -/
def Short (rq : Rq) : Prop := ∀ x, (rq.tasks x).slice ≤ TINY_DEFAULT_SLICE

/-- Task `p` can be charged at most `n` more ticks before it is made the next task again: it
does not run, it is behind `q` and about to leave, or its slice ends by then. -/
def Allows (p q : Pid) (rq : Rq) (n : Nat) : Prop :=
  rq.donor = p → ¬(rq.needResched = true ∧ Behind p q rq) → max 1 (rq.tasks p).slice ≤ n

namespace Allows

variable {n : Nat}

/-- A slice is enough. -/
theorem full (h : Short rq) : Allows p q rq TINY_DEFAULT_SLICE := by
  intro _ _
  exact Nat.max_le.mpr ⟨by decide, h p⟩

/-- A task that does not run is not charged. -/
theorem off (h : rq.donor ≠ p) : Allows p q rq n := fun hd => absurd hd h

/-- A step that lets the task run on and keeps it behind `q` if it was. -/
theorem keep (h : Allows p q rq n) (hdonor : rq'.donor = p → rq.donor = p)
    (hslice : (rq'.tasks p).slice ≤ (rq.tasks p).slice)
    (hleave : rq'.donor = p → rq.needResched = true → Behind p q rq →
      rq'.needResched = true ∧ Behind p q rq') : Allows p q rq' n := by
  intro hd hstay
  have := h (hdonor hd) fun ⟨hres, hb⟩ => hstay (hleave hd hres hb)
  omega

end Allows

/-- The slices after the callbacks that change none. -/
theorem Rq.enqueueTask_slice (rq : Rq) (r : Pid) (f : Flags) (x : Pid) :
    ((rq.enqueueTask r f).tasks x).slice = (rq.tasks x).slice := by
  rw [Rq.enqueueTask_tasks]
  by_cases hx : x = r
  · subst hx
    simp
  · simp [hx]

theorem Rq.dequeueTask_slice (rq : Rq) (r : Pid) (f : Flags) (x : Pid) :
    ((rq.dequeueTask r f).tasks x).slice = (rq.tasks x).slice := by
  rw [Rq.dequeueTask_tasks]
  by_cases hx : x = r
  · subst hx
    simp
  · simp [hx]

/-- A change of a task that keeps its slice. -/
theorem Rq.modTask_slice (rq : Rq) {r : Pid} {g : TaskStruct → TaskStruct}
    (hg : (g (rq.tasks r)).slice = (rq.tasks r).slice) (x : Pid) :
    ((rq.modTask r g).tasks x).slice = (rq.tasks x).slice := by
  by_cases hx : x = r
  · subst hx
    rw [Rq.modTask_tasks_self, hg]
  · rw [Rq.modTask_tasks_of_ne _ _ _ hx]

/-- `set_next_task` starts a slice at most. -/
theorem Rq.setNextTask_slice (rq : Rq) (r x : Pid) :
    ((rq.setNextTask r).tasks x).slice = (rq.tasks x).slice ∨
      x = r ∧ ((rq.setNextTask r).tasks x).slice = TINY_DEFAULT_SLICE := by
  unfold Rq.setNextTask
  split
  · by_cases hx : x = r
    · subst hx
      exact .inr ⟨rfl, by rw [Rq.setNextTaskFair, Rq.modTask_tasks_self]⟩
    · exact .inl (by rw [Rq.setNextTaskFair, Rq.modTask_tasks_of_ne _ _ _ hx])
  · exact .inl rfl

/-- What a pick does: the next task becomes the donor, no reschedule is pending, and the
queues and tasks are the same but for the slice of a new donor. -/
theorem Rq.pick_cases (h : rq.pick = some rq') :
    rq.pickNextTask = some rq'.donor ∧ rq'.needResched = false ∧ SameTasks rq rq' ∧
      ∀ x, (rq'.tasks x).slice = (rq.tasks x).slice ∨
        x = rq'.donor ∧ x ≠ rq.donor ∧ (rq'.tasks x).slice = TINY_DEFAULT_SLICE := by
  obtain ⟨r, hnext, rfl⟩ := Option.map_eq_some_iff.mp h
  dsimp only
  split
  · next hr =>
    subst hr
    exact ⟨hnext, rfl, fun _ => rfl, fun _ => .inl rfl⟩
  · next hr =>
    obtain ⟨hsame, hdonor, hres⟩ :=
      Rq.setNextTask_same { rq with needResched := false, donor := r } r
    rw [hdonor]
    refine ⟨hnext, hres, hsame, fun x => ?_⟩
    rcases Rq.setNextTask_slice { rq with needResched := false, donor := r }
      r x with heq | ⟨hx, heq⟩
    · exact .inl heq
    · exact .inr ⟨hx, hx ▸ hr, heq⟩

/-- A pick keeps the slices short. -/
theorem Short.pick (h : Short rq) (hs : rq.pick = some rq') : Short rq' := by
  intro x
  rcases (Rq.pick_cases hs).2.2.2 x with heq | ⟨-, -, heq⟩
  · rw [heq]
    exact h x
  · rw [heq]

/-! ### The steps -/

section Steps

variable {n : Nat} {a : CoreStep}

/-- A task that is made the next task gets a full slice; the only other one that can be
charged later on is the task that ran and runs on. -/
theorem exists_allows (hshort : Short rq')
    (hrun : rq.donor = p → rq'.donor = p → ¬Changes p a → Allows p q rq' n) :
    ∃ n', Allows p q rq' n' ∧ n' ≤ n + TINY_DEFAULT_SLICE * resumed p rq a rq' := by
  by_cases hd' : rq'.donor = p
  · by_cases hres : rq.donor ≠ p ∨ Changes p a
    · refine ⟨_, .full hshort, ?_⟩
      rw [resumed, if_pos ⟨hd', hres⟩]
      omega
    · rw [not_or, not_not] at hres
      exact ⟨n, hrun hres.1 hd' hres.2, Nat.le_add_right ..⟩
  · exact ⟨0, .off hd', Nat.zero_le _⟩

/-- A pick lets a task run on only if it is not behind `q`. -/
theorem Allows.pick (h : Allows p q rq n) (hm : Marked rq₁) (hd : rq₁.donor = rq.donor)
    (hslice : (rq₁.tasks p).slice = (rq.tasks p).slice) (hq : (rq₁.tasks q).seOnRq = true)
    (hpq : p ≠ q) (hs : rq₁.pick = some rq') (hdp : rq.donor = p) (hd' : rq'.donor = p)
    (hbehind : Behind p q rq → Behind p q rq₁) : Allows p q rq' n := by
  obtain ⟨hnext, -, -, hsl⟩ := Rq.pick_cases hs
  rw [hd'] at hnext
  refine h.keep (fun _ => hdp) ?_ fun _ _ hb => ?_
  · rcases hsl p with heq | ⟨-, hne, -⟩
    · rw [heq, hslice]
    · exact absurd (hd.trans hdp).symm hne
  · exact absurd hnext ((hbehind hb).not_picked hm hq hpq)

/-- The state of a task that a step left alone, but for its slice. -/
theorem Behind.keep_same (h : Behind p q rq) (hk : Keeps q rq rq')
    (hp : rq'.tasks p = { rq.tasks p with slice := (rq'.tasks p).slice })
    (hq : rq'.tasks q = { rq.tasks q with slice := (rq'.tasks q).slice }) :
    Behind p q rq' := by
  refine h.keep hk (by rw [hp]; exact h.seOnRq) ?_
  rw [Rq.tinyPrio, Rq.tinyPrio, hp, hq]
  exact h.bucket

/-- A step that leaves the two tasks alone and may ask for a reschedule. -/
theorem Allows.report (h : Allows p q rq n) (hd : rq.donor = p) (hp : rq₁.tasks p = rq.tasks p)
    (hq : rq₁.tasks q = rq.tasks q) (hk : Keeps q rq rq₁)
    (hres : rq₁.needResched = rq.needResched)
    (hrq' : rq' = rq₁ ∨ rq' = rq₁.reschedCurr) : Allows p q rq' n := by
  have hbehind (hb : Behind p q rq) : Behind p q rq₁ :=
    hb.keep_same hk (by rw [hp]) (by rw [hq])
  rcases hrq' with rfl | rfl
  · refine h.keep (fun _ => hd) (by rw [hp]) fun _ hnr hb => ?_
    exact ⟨hres.trans hnr, hbehind hb⟩
  · refine h.keep (fun _ => hd) (le_of_eq (congrArg TaskStruct.slice hp)) fun _ _ hb =>
      ⟨rfl, ?_⟩
    exact (hbehind hb).keep_same (Keeps.congr rfl rfl (fun _ => rfl) fun _ _ => rfl) rfl rfl

/-- A waiting task is marked queued. -/
theorem Waits.onRq (h : Waits q rq) (hm : Marked rq) : (rq.tasks q).onRq = true :=
  ((hm.seOnRq q).mp h.1).1

/-- A wake-up. -/
theorem Allows.wake (h : Allows p q rq n) (hw : Wired rq) (hq : Waits q rq) (hr : r ≠ 0)
    (hoff : (rq.tasks r).onRq = false) (hd : rq.donor = p) : Allows p q
      (((rq.enqueueTask r f).modTask r fun T => { T with onRq := true }).wakeupPreempt r f)
      n := by
  obtain ⟨rq₁, hrq₁⟩ : ∃ rq₁, rq₁ = (rq.enqueueTask r f).modTask r fun T =>
    { T with onRq := true } :=
    ⟨_, rfl⟩
  obtain ⟨-, hother, -, hdonor, hdr, hres⟩ := hw.enqueue_woken hr hoff hrq₁
  have hqr : r ≠ q := by
    rintro rfl
    rw [hq.onRq hw.toMarked] at hoff
    cases hoff
  have hk : Keeps q rq rq₁ := by
    rw [hrq₁]
    refine (Keeps.enqueueTask hqr).trans (Keeps.congr rfl rfl (fun x => ?_) fun x _ => ?_)
    · by_cases hx : x = r
      · subst hx
        rw [Rq.modTask_tasks_self]
      · rw [Rq.modTask_tasks_of_ne _ _ _ hx]
    · by_cases hx : x = r
      · subst hx
        rw [Rq.tinyPrio, Rq.modTask_tasks_self]
        rfl
      · rw [Rq.tinyPrio, Rq.modTask_tasks_of_ne _ _ _ hx]
        rfl
  have hpr : p ≠ r := fun hpr => hdr (hd.trans hpr)
  rw [← hrq₁]
  exact h.report hd (hother p hpr) (hother q hqr.symm) hk hres (rq₁.wakeupPreempt_cases r f)

/-- A change of a task other than the two. -/
theorem Allows.change (h : Allows p q rq n) (hw : Wired rq) (hr : r ≠ 0) (hrp : r ≠ p)
    (hrq : r ≠ q) (hd : rq.donor = p) (policy : Policy) (staticPrio : Int) (prio : Nat) :
    Allows p q (rq.changeTask r policy staticPrio prio) n := by
  obtain ⟨-, hother, -, hdonor, hres⟩ := hw.toMarked.requeueTask hr policy staticPrio prio
  have hk : Keeps q rq (rq.requeueTask r policy staticPrio prio) := by
    have hset (rq₁ : Rq) (hoff : (rq₁.tasks r).seOnRq = false) :
        Keeps q rq₁ (rq₁.setParams r policy staticPrio prio) := by
      refine Keeps.congr rfl rfl (fun x => ?_) fun x hx => ?_
      · by_cases hxr : x = r
        · subst hxr
          rw [Rq.setParams, Rq.modTask_tasks_self]
        · rw [Rq.setParams, Rq.modTask_tasks_of_ne _ _ _ hxr]
      · have hxr : x ≠ r := by
          rintro rfl
          rw [hoff] at hx
          cases hx
        rw [Rq.tinyPrio, Rq.setParams, Rq.modTask_tasks_of_ne _ _ _ hxr]
        rfl
    rw [Rq.requeueTask]
    cases hon : (rq.tasks r).onRq with
    | true =>
        rw [if_pos rfl]
        refine (Keeps.dequeueTask.trans (hset _ ?_)).trans (Keeps.enqueueTask hrq)
        rw [hw.toMarked.dequeueTask_self]
    | false =>
        rw [if_neg (by simp)]
        exact hset rq (hw.toMarked.alone hon).2
  have hbr : rq.bracketTask r policy staticPrio prio =
    rq.requeueTask r policy staticPrio prio := by
    rw [Rq.bracketTask]
    exact if_neg fun hrd => hrp (hrd.trans (hdonor.trans hd))
  rw [Rq.changeTask, hbr]
  exact h.report hd (hother p hrp.symm) (hother q hrq.symm) hk hres
    (Rq.reportChange_cases _ _ _)

/-- The running task, blocked, is not picked. -/
theorem block_donor (hw : Wired rq) (hd : rq.donor ≠ 0)
    (hs : ((rq.dequeueTask rq.donor f).modTask rq.donor fun T =>
      { T with onRq := false }).pick =
      some rq') : rq'.donor ≠ rq.donor := by
  have hw' := ((hw.block hd).pick_sound hs).toWired
  obtain ⟨-, -, hsame, -⟩ := Rq.pick_cases hs
  intro heq
  rcases hw'.donor with h0 | hon
  · exact hd (heq.symm.trans h0)
  · rw [heq, hsame, Rq.modTask_tasks_self] at hon
    cases hon

/-- A yield. -/
theorem Allows.yield (h : Allows p q rq n) (hm : Marked rq) (hq : Waits q rq) (hpq : p ≠ q)
    (hs : rq.yieldTask.pick = some rq') (hd : rq.donor = p) (hd' : rq'.donor = p) :
    Allows p q rq' n := by
  obtain ⟨htasks, hdonor⟩ := rq.yieldTask_frame
  refine h.pick hm.yieldTask hdonor (by rw [htasks])
    (by rw [htasks]; exact hq.1) hpq hs hd hd' ?_
  exact fun hb => hb.keep_same (Keeps.yieldTask hq.2) (by rw [htasks]) (by rw [htasks])

/-- A tick takes from a slice at most. -/
theorem Rq.taskTickFair_slice (rq : Rq) (p x : Pid) :
    ((rq.taskTickFair p).tasks x).slice ≤ (rq.tasks x).slice := by
  have hmod :
    ((rq.modTask p fun T => { T with slice := (rq.tasks p).slice - 1 }).tasks x).slice ≤
      (rq.tasks x).slice := by
    by_cases hx : x = p
    · subst hx
      rw [Rq.modTask_tasks_self]
      exact Nat.sub_le ..
    · rw [Rq.modTask_tasks_of_ne _ _ _ hx]
  unfold Rq.taskTickFair
  dsimp only
  split
  · exact le_rfl
  split
  · exact hmod
  · exact hmod

/-- Two elements of a list. -/
theorem two_le_length {l : List Pid} (hpq : p ≠ q) (hp : p ∈ l) (hq : q ∈ l) :
    2 ≤ l.length := by
  match l, hp, hq with
  | [x], hp, hq =>
      rw [List.mem_singleton] at hp hq
      exact absurd (hp.trans hq.symm) hpq
  | _ :: _ :: _, _, _ => simp

/-- A task whose slice has expired is behind every other task of its bucket. -/
theorem Behind.of_expired {Q : Fin NR_TINY_PRIO → List Pid}
    (hQ : FairQueues (fun _ => True) rq Q)
    (hon : (rq.tasks p).seOnRq = true) (hbucket : rq.tinyPrio p = rq.tinyPrio q) (hpq : p ≠ q)
    (heq : rq.taskTickFair p =
      ((rq.modTask p fun T => { T with slice := T.slice - 1 }).rotateFair p).reschedCurr) :
    Behind p q (rq.taskTickFair p) := by
  obtain ⟨hsame, -⟩ := rq.taskTickFair_same p
  have hm := hQ.mem hon
  refine ⟨by rw [hsame]; exact hon, ?_, _, heq ▸ hQ.expire hon, ?_⟩
  · rw [Rq.tinyPrio, Rq.tinyPrio, hsame p, hsame q]
    exact hbucket
  · have hord :
      Ordered q p (Function.update Q (rq.tinyPrio p) ((Q (rq.tinyPrio p)).erase p)) :=
      fun i _ hp => absurd hp (hQ.rings.not_mem_erase hm i)
    have happ := hord.append (i := rq.tinyPrio p) hpq (hQ.rings.not_mem_erase hm)
    rwa [Function.update_self, Function.update_idem] at happ

/-- **A tick** takes one from the slice of the running task; the last one sends it behind
`q`. -/
theorem Allows.tick (h : Allows p q rq n) (hw : Wired rq) (hq : Waits q rq) (hpq : p ≠ q) :
    ∃ n', Allows p q rq.taskTick n' ∧ charge p q rq .tick rq' + n' ≤ n := by
  unfold charge Rq.taskTick
  dsimp only
  by_cases hd : rq.donor = p
  · subst hd
    cases hc : (rq.tasks rq.donor).schedClass with
    | rt | idle =>
        refine ⟨n, h, ?_⟩
        rw [if_neg (by simp)]
        omega
    | fair =>
        have hon := hw.fair_donor hc
        obtain ⟨hsame, hdonor, -, hres⟩ := rq.taskTickFair_same rq.donor
        obtain ⟨Q, hQ⟩ := hw.fair
        have hk : Keeps q rq (rq.taskTickFair rq.donor) := Keeps.tick hon hpq
        have hleave (hnr : rq.needResched = true) (hb : Behind rq.donor q rq) :
            (rq.taskTickFair rq.donor).needResched = true ∧
              Behind rq.donor q (rq.taskTickFair rq.donor) := by
          refine ⟨?_, hb.keep_same hk (hsame _) (hsame _)⟩
          cases hnr' : (rq.taskTickFair rq.donor).needResched with
          | true => rfl
          | false => rw [hres hnr'] at hnr; exact hnr
        by_cases hch : rq.donor = rq.donor ∧ SchedClass.fair = .fair ∧
            rq.tinyPrio rq.donor = rq.tinyPrio q ∧ rq.needResched = false
        · rw [if_pos hch]
          obtain ⟨-, -, hbucket, hnr⟩ := hch
          have hle := h rfl fun ⟨hnr', _⟩ => by
            rw [hnr] at hnr'
            cases hnr'
          have hlen : 2 ≤ (Q (rq.tinyPrio rq.donor)).length :=
            two_le_length hpq (hQ.mem hon) (hbucket ▸ hQ.mem hq.1)
          obtain ⟨hlen', -⟩ | ⟨-, ⟨htwo, heq⟩ | ⟨hone, heq⟩⟩ := hQ.tick_cases (p := rq.donor)
          · omega
          · refine ⟨n - 1, fun _ _ => ?_, by omega⟩
            rw [heq, Rq.modTask_tasks_self]
            dsimp only
            omega
          · refine ⟨0, fun _ hstay => absurd ⟨?_, ?_⟩ hstay, by omega⟩
            · rw [heq]
              rfl
            · exact Behind.of_expired hQ hon hbucket hpq heq
        · rw [if_neg hch]
          refine ⟨n, h.keep (fun _ => rfl) ?_ fun _ hnr hb => hleave hnr hb, by omega⟩
          exact rq.taskTickFair_slice rq.donor rq.donor
  · refine ⟨0, .off ?_, ?_⟩
    · split
      · rw [(rq.taskTickFair_same rq.donor).2.1]
        exact hd
      · exact hd
    · rw [if_neg fun hch => hd hch.1]
      omega

/-- Every step keeps the slices short. -/
theorem Short.coreStep (h : Short rq) (hw : Wired rq) (hs : coreStep rq a = some rq') :
    Short rq' := by
  cases a with
  | wake r =>
      simp only [Sched.coreStep] at hs
      split at hs
      · cases hs
      · obtain rfl := Option.some.inj hs
        have hslice (x : Pid) : (((rq.enqueueTask r { wakeup := true }).modTask r fun T =>
            { T with onRq := true }).tasks x).slice ≤ TINY_DEFAULT_SLICE := by
          rw [Rq.modTask_slice _ rfl, Rq.enqueueTask_slice]
          exact h x
        rcases Rq.wakeupPreempt_cases ((rq.enqueueTask r { wakeup := true }).modTask r fun T =>
          { T with onRq := true }) r { wakeup := true } with heq | heq
        · rw [heq]
          exact hslice
        · rw [heq]
          exact hslice
  | block =>
      simp only [Sched.coreStep] at hs
      split at hs
      · cases hs
      · refine Short.pick (fun x => ?_) hs
        rw [Rq.modTask_slice _ rfl, Rq.dequeueTask_slice]
        exact h x
  | change r policy staticPrio prio =>
      simp only [Sched.coreStep] at hs
      split at hs
      · cases hs
      · next hr =>
        obtain rfl := Option.some.inj hs
        have hslice : Short (rq.bracketTask r policy staticPrio prio) := by
          obtain ⟨-, hother, hself, -, -⟩ := hw.toMarked.requeueTask hr policy staticPrio prio
          have hreq : Short (rq.requeueTask r policy staticPrio prio) := by
            intro x
            by_cases hx : x = r
            · subst hx
              rw [hself]
              exact h x
            · rw [hother x hx]
              exact h x
          rw [Rq.bracketTask]
          split
          · intro x
            rcases Rq.setNextTask_slice
              (rq.requeueTask r policy staticPrio prio) r x with heq | ⟨-, heq⟩
            · rw [heq]
              exact hreq x
            · rw [heq]
          · exact hreq
        rw [Rq.changeTask]
        rcases Rq.reportChange_cases (rq.bracketTask r policy staticPrio prio) r
          (rq.tasks r).schedClass with heq | heq
        · rw [heq]
          exact hslice
        · rw [heq]
          exact hslice
  | tick =>
      obtain rfl := Option.some.inj hs
      intro x
      unfold Rq.taskTick
      split
      · exact (rq.taskTickFair_slice rq.donor x).trans (h x)
      · exact h x
  | yield =>
      refine Short.pick (fun x => ?_) hs
      rw [(Rq.yieldTask_frame rq).1]
      exact h x
  | pick => exact h.pick hs

/-- **What one step takes from the slice of a task** of the bucket of a waiting one. -/
theorem coreStep_allows (h : Allows p q rq n) (hw : Wired rq) (hshort : Short rq)
    (hq : Waits q rq) (hpq : p ≠ q) (hch : ¬Changes q a) (hs : coreStep rq a = some rq') :
    ∃ n', Allows p q rq' n' ∧
      charge p q rq a rq' + n' ≤ n + TINY_DEFAULT_SLICE * resumed p rq a rq' := by
  have hshort' := hshort.coreStep hw hs
  cases a with
  | wake r =>
      simp only [coreStep] at hs
      split at hs
      · cases hs
      · next hcond =>
        obtain rfl := Option.some.inj hs
        simp only [charge, Nat.zero_add]
        refine exists_allows hshort' fun hd _ _ => ?_
        exact h.wake hw hq (fun hr => hcond (.inl hr))
          (by simpa using fun hon => hcond (.inr hon)) hd
  | block =>
      simp only [coreStep] at hs
      split at hs
      · cases hs
      · next hd0 =>
        simp only [charge, Nat.zero_add]
        refine exists_allows hshort' fun hd hd' _ => ?_
        exact absurd (hd'.trans hd.symm) (block_donor hw hd0 hs)
  | change r policy staticPrio prio =>
      simp only [coreStep] at hs
      split at hs
      · cases hs
      · next hr =>
        obtain rfl := Option.some.inj hs
        simp only [charge, Nat.zero_add]
        exact exists_allows hshort' fun hd _ hrp =>
          h.change hw hr hrp hch hd policy staticPrio prio
  | tick =>
      obtain rfl := Option.some.inj hs
      obtain ⟨n', hn', hle⟩ := h.tick hw hq hpq
      exact ⟨n', hn', hle.trans (Nat.le_add_right ..)⟩
  | yield =>
      simp only [charge, Nat.zero_add]
      exact exists_allows hshort' fun hd hd' _ => h.yield hw.toMarked hq hpq hs hd hd'
  | pick =>
      simp only [charge, Nat.zero_add]
      exact exists_allows hshort' fun hd hd' _ =>
        h.pick hw.toMarked rfl rfl hq.1 hpq hs hd hd' id

end Steps

/-! ### Runs -/

/-- **Round robin inside a bucket.** While a task `q` waits in a bucket, another task of the
bucket is charged at most `TINY_DEFAULT_SLICE` ticks, and as many again for each time it is
made the next task. -/
theorem bucket_charges_le {rq₀ : Rq} (hboot : Booting rq₀) (hshort : Short rq₀)
    {before : List CoreStep} (hrun : before.foldlM coreStep rq₀.schedInit = some rq)
    (hpq : p ≠ q) (as : List CoreStep) (hwait : Along coreStep (Waits q) rq as)
    (hstay : AlongSteps coreStep (fun _ a => ¬Changes q a) rq as) :
    tally coreStep (charge p q) rq as ≤
      TINY_DEFAULT_SLICE + TINY_DEFAULT_SLICE * tally coreStep (resumed p) rq as := by
  obtain ⟨hw, hsh⟩ : Wired rq ∧ Short rq :=
    inv_of_foldlM (I := fun rq => Wired rq ∧ Short rq)
      (fun _ _ _ hinv hs => ⟨coreStep_wired hinv.1 hs, hinv.2.coreStep hinv.1 hs⟩)
      ⟨hboot.sound.toWired, hshort⟩ hrun
  refine tally_le (I := fun rq => Wired rq ∧ Short rq) (B := Allows p q) ?_ ⟨hw, hsh⟩
    (.full hsh) hwait hstay
  intro rq a rq' n hinv hch hq _ hn hs
  exact ⟨⟨coreStep_wired hinv.1 hs, hinv.2.coreStep hinv.1 hs⟩,
    coreStep_allows hn hinv.1 hinv.2 hq hpq hch hs⟩

/-- A run queue that is about to be initialised, with fair tasks: task `3` is of a higher
bucket than the others. -/
def threeFairRq : Rq :=
  { bootRq with
    tasks := Function.update bootRq.tasks 3 { staticPrio := 110, prio := 110 }
    tiny := { bootRq.tiny with links := ⟨id, id⟩ } }

theorem threeFairRq_booting : Booting threeFairRq where
  donor := rfl
  idle := rfl
  schedClass p hp := by
    by_cases h3 : p = 3
    · subst h3
      rfl
    · simp [threeFairRq, bootRq, hp, h3, Rq.classOf, MAX_RT_PRIO]
  alone p := by
    by_cases h3 : p = 3
    · subst h3
      exact ⟨rfl, rfl, rfl⟩
    · simpa [threeFairRq, h3] using bootRq_alone p
  links p := by simp [threeFairRq, Links.listEmpty]
  cfs := rfl

theorem threeFairRq_short : Short threeFairRq := by
  intro x
  by_cases h3 : x = 3
  · subst h3
    decide
  · by_cases h0 : x = 0
    · subst h0
      decide
    · simp [threeFairRq, bootRq, h3, h0]

/-- The tasks `1` and `2` of one bucket are queued, and `1` runs. -/
def oneRunsRq : Rq :=
  (([CoreStep.wake 1, .wake 2, .pick].foldlM coreStep threeFairRq.schedInit).getD threeFairRq)

theorem oneRunsRq_run :
    [CoreStep.wake 1, .wake 2, .pick].foldlM coreStep threeFairRq.schedInit =
      some oneRunsRq := rfl

/-- Task `1` runs for almost a slice, is preempted by task `3`, which blocks, and runs for
almost a slice again. -/
def preemptedRun : List CoreStep :=
  List.replicate 20 .tick ++ [.wake 3, .pick, .block] ++ List.replicate 20 .tick

/-- A task that is preempted and resumed is charged for more than a slice while another one of
its bucket waits. -/
theorem preempted_task_charged_twice :
    Booting threeFairRq ∧ Short threeFairRq ∧
      [CoreStep.wake 1, .wake 2, .pick].foldlM coreStep threeFairRq.schedInit =
        some oneRunsRq ∧
      Along coreStep (Waits 2) oneRunsRq preemptedRun ∧
      AlongSteps coreStep (fun _ a => ¬Changes 2 a) oneRunsRq preemptedRun ∧
      ¬tally coreStep (charge 1 2) oneRunsRq preemptedRun ≤ TINY_DEFAULT_SLICE := by
  refine ⟨threeFairRq_booting, threeFairRq_short, oneRunsRq_run, ?_⟩
  decide +kernel

/-- The bound for the preempted task: it is resumed once. -/
theorem bucket_charges_le_preempted :
    tally coreStep (resumed 1) oneRunsRq preemptedRun = 1 ∧
      tally coreStep (charge 1 2) oneRunsRq preemptedRun ≤
        TINY_DEFAULT_SLICE + TINY_DEFAULT_SLICE *
          tally coreStep (resumed 1) oneRunsRq preemptedRun := by
  refine ⟨by decide +kernel,
    bucket_charges_le threeFairRq_booting threeFairRq_short oneRunsRq_run
    (by decide) preemptedRun ?_ ?_⟩
  · decide +kernel
  · decide +kernel

end Adbd.Sched
