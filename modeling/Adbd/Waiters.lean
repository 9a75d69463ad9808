import Adbd.Prog

/-!
# Shell Children and Their Waiters

`create_subproc_thread` of `services.c` starts a shell as a child process and a thread
running `subproc_waiter_service`, which waits for the child with `waitpid` and then writes
the shell's descriptor to `SHELL_EXIT_NOTIFY_FD`. The thread is started whatever
`create_subprocess` returned: when a pipe or the fork failed, the thread waits for a pid
that is `-1` or was never set. Other services fork children too and wait for them by pid.

Children and waiters are numbered in the order they come into being; pids are those of the
operating system, which hands out a pid again once its last bearer was waited for.

## Main definitions

* `Spawn`, `createSubprocess`, `createSubprocThread`: starting a shell.
* `Child`, `Waiter`, `Shells`: the processes and the threads.
* `Shells.step`: the transition system, with `waitpid` as POSIX has it.
* `Shells.Matched`: each waiter and its child belong together.

## Main results

* `Shells.step_cases`: what a step does.
* `Shells.Inv.step`: what every step preserves while no failed spawn starts a waiter.
* `waiters_matched_iff`: after every sequence of steps, waiters and children match exactly
  if no failed `create_subprocess` was followed by the start of a thread.
-/

namespace Adbd

/-- What becomes of a child process: it runs, it has exited and nobody has waited for it
yet, or it was waited for. -/
inductive ChildState
  | running
  | exited
  | gone
deriving DecidableEq, Repr

/-- A child process: its pid, its process group, the descriptor of its output if it is a
shell, and its state. -/
structure Child where
  pid : Int
  group : Int
  shellFd : Option Int
  state : ChildState := .running
deriving DecidableEq, Repr

/-- Where a waiter stands: in its loop around `waitpid`, before the notification, or
finished. -/
inductive WaiterPc
  | waiting
  | leaving
  | done
deriving DecidableEq, Repr

/-- A thread running `subproc_waiter_service`. `pid` and `fd` are its arguments; `child` is
the child it was started for, if any, `reaped` the children `waitpid` returned to it, and
`posted` what it wrote to `SHELL_EXIT_NOTIFY_FD`. -/
structure Waiter where
  pid : Int
  fd : Int
  child : Option Nat
  reaped : List Nat := []
  posted : List Int := []
  pc : WaiterPc := .waiting
deriving DecidableEq, Repr

/-- The children of the daemon and its waiters, by number. -/
structure Shells where
  children : Nat → Option Child
  nextChild : Nat
  waiters : Nat → Option Waiter
  nextWaiter : Nat

/-- No child, no waiter. -/
def Shells.init : Shells where
  children := fun _ => none
  nextChild := 0
  waiters := fun _ => none
  nextWaiter := 0

/-- Overwrite a child. -/
def Shells.putChild (s : Shells) (i : Nat) (c : Child) : Shells :=
  { s with children := Function.update s.children i (some c) }

/-- Overwrite a waiter. -/
def Shells.putWaiter (s : Shells) (j : Nat) (w : Waiter) : Shells :=
  { s with waiters := Function.update s.waiters j (some w) }

/-- A new child. -/
def Shells.addChild (s : Shells) (c : Child) : Shells :=
  { s.putChild s.nextChild c with nextChild := s.nextChild + 1 }

/-- A new waiter. -/
def Shells.addWaiter (s : Shells) (w : Waiter) : Shells :=
  { s.putWaiter s.nextWaiter w with nextWaiter := s.nextWaiter + 1 }

/-- The operating system may give this pid to a new child. -/
def Shells.PidFree (s : Shells) (pid : Int) : Prop :=
  0 < pid ∧ ∀ i < s.nextChild, ∀ c, s.children i = some c → c.state ≠ .gone → c.pid ≠ pid

instance (s : Shells) (pid : Int) : Decidable (s.PidFree pid) :=
  inferInstanceAs (Decidable (0 < pid ∧ ∀ i < s.nextChild, ∀ c, s.children i = some c → _))

/-! ### Starting a shell -/

/-- How `create_subprocess` goes: a pipe cannot be created, and `*pid` keeps the value it
happened to have; the fork fails; or there is a child. -/
inductive Spawn
  | pipeFails (junk : Int)
  | forkFails
  | forks (pid group fd : Int)
deriving DecidableEq, Repr

/-- `create_subprocess`: the descriptor returned, the pid, and the child's number. -/
def createSubprocess (s : Shells) : Spawn → Int × Int × Option Nat × Shells
  | .pipeFails junk => (-1, junk, none, s)
  | .forkFails => (-1, -1, none, s)
  | .forks pid group fd =>
      (fd, pid, some s.nextChild,
        s.addChild { pid := pid, group := group, shellFd := some fd })

/-- `create_subproc_thread`, where `starts` says whether the thread can be created. The
result of `create_subprocess` is not looked at. -/
def createSubprocThread (s : Shells) (sp : Spawn) (starts : Bool) : Shells :=
  match createSubprocess s sp with
  | (fd, pid, child, s) =>
      if starts then s.addWaiter { pid := pid, fd := fd, child := child } else s

/-! ### The transition system -/

/-- How a `waitpid` call returns: with a child that has exited, with `ECHILD`, or with
`EINTR`. -/
inductive WaitRes
  | reaps (i : Nat)
  | noChild
  | interrupted
deriving DecidableEq, Repr

/-- The children a `waitpid` call with this argument waits for, in a daemon whose process
group is `own`. -/
def Child.Matches (c : Child) (own pid : Int) : Prop :=
  if 0 < pid then c.pid = pid
  else if pid = -1 then True
  else if pid = 0 then c.group = own
  else c.group = -pid

instance (c : Child) (own pid : Int) : Decidable (c.Matches own pid) := by
  unfold Child.Matches; infer_instance

/-- What happens next. -/
inductive ShellAct
  /-- a shell service is opened -/
  | shell (sp : Spawn) (starts : Bool)
  /-- another service forks a child -/
  | service (pid group : Int)
  /-- another service waits for its own child -/
  | serviceWait (i : Nat)
  /-- a child exits -/
  | exits (i : Nat)
  /-- a `waitpid` call of a waiter returns -/
  | waitpid (j : Nat) (r : WaitRes)
  /-- a waiter writes its notification -/
  | notify (j : Nat)
deriving DecidableEq, Repr

/-- The turn of the waiter's loop in which `waitpid` returned `p`. Whatever the status, the
loop is left if `p` is the pid waited for. -/
def Waiter.turn (w : Waiter) (p : Int) : Waiter :=
  if p = w.pid then { w with pc := .leaving } else w

/-- `waitpid` in the waiter `j`. -/
def Shells.waitpid (own : Int) (s : Shells) (j : Nat) (w : Waiter) :
    WaitRes → Except Unit Shells
  | .reaps i =>
      match s.children i with
      | some c =>
          if c.state = .exited ∧ c.Matches own w.pid then
            .ok ((s.putChild i { c with state := .gone }).putWaiter j
              ({ w with reaped := i :: w.reaped }.turn c.pid))
          else .error ()
      | none => .error ()
  | .noChild =>
      if ∀ i < s.nextChild, ∀ c, s.children i = some c → c.state ≠ .gone →
        ¬ c.Matches own w.pid then
        .ok (s.putWaiter j (w.turn (-1)))
      else .error ()
  | .interrupted => .ok (s.putWaiter j (w.turn (-1)))

/-- One step. -/
def Shells.step (own : Int) (s : Shells) : ShellAct → Except Unit Shells
  | .shell sp starts =>
      match sp with
      | .forks pid _ fd =>
          if s.PidFree pid ∧ 0 ≤ fd then .ok (createSubprocThread s sp starts) else .error ()
      | _ => .ok (createSubprocThread s sp starts)
  | .service pid group =>
      if s.PidFree pid then .ok (s.addChild { pid := pid, group := group, shellFd := none })
      else .error ()
  | .serviceWait i =>
      match s.children i with
      | some c =>
          if c.state = .exited ∧
            c.shellFd = none then .ok (s.putChild i { c with state := .gone })
          else .error ()
      | none => .error ()
  | .exits i =>
      match s.children i with
      | some c =>
          if c.state = .running then .ok (s.putChild i { c with state := .exited })
          else .error ()
      | none => .error ()
  | .waitpid j r =>
      match s.waiters j with
      | some w => if w.pc = .waiting then s.waitpid own j w r else .error ()
      | none => .error ()
  | .notify j =>
      match s.waiters j with
      | some w =>
          if w.pc = .leaving then
            .ok (s.putWaiter j { w with posted := w.posted ++ [w.fd], pc := .done })
          else .error ()
      | none => .error ()

/-- **What a step does**, and when it is possible. -/
inductive Shells.Stepped (own : Int) (s : Shells) : ShellAct → Shells → Prop
  | shell {sp : Spawn} {starts : Bool}
      (hfree : ∀ pid group fd, sp = .forks pid group fd → s.PidFree pid ∧ 0 ≤ fd) :
      s.Stepped own (.shell sp starts) (createSubprocThread s sp starts)
  | service {pid group : Int} (hfree : s.PidFree pid) :
      s.Stepped own (.service pid group)
        (s.addChild { pid := pid, group := group, shellFd := none })
  | serviceWait {i : Nat} {c : Child} (hc : s.children i = some c) (hexit : c.state = .exited)
      (hfd : c.shellFd = none) :
      s.Stepped own (.serviceWait i) (s.putChild i { c with state := .gone })
  | exits {i : Nat} {c : Child} (hc : s.children i = some c) (hrun : c.state = .running) :
      s.Stepped own (.exits i) (s.putChild i { c with state := .exited })
  | reaps {i j : Nat} {c : Child} {w : Waiter} (hw : s.waiters j = some w)
      (hpc : w.pc = .waiting) (hc : s.children i = some c) (hexit : c.state = .exited)
      (hm : c.Matches own w.pid) :
      s.Stepped own (.waitpid j (.reaps i))
        ((s.putChild i { c with state := .gone }).putWaiter j
        ({ w with reaped := i :: w.reaped }.turn c.pid))
  | noChild {j : Nat} {w : Waiter} (hw : s.waiters j = some w) (hpc : w.pc = .waiting)
      (hno : ∀ i < s.nextChild, ∀ c, s.children i = some c → c.state ≠ .gone →
        ¬c.Matches own w.pid) :
      s.Stepped own (.waitpid j .noChild) (s.putWaiter j (w.turn (-1)))
  | interrupted {j : Nat} {w : Waiter} (hw : s.waiters j = some w) (hpc : w.pc = .waiting) :
      s.Stepped own (.waitpid j .interrupted) (s.putWaiter j (w.turn (-1)))
  | notify {j : Nat} {w : Waiter} (hw : s.waiters j = some w) (hpc : w.pc = .leaving) :
      s.Stepped own (.notify j)
        (s.putWaiter j { w with posted := w.posted ++ [w.fd], pc := .done })

/-- **Step cases.** The steps are looked at here only. -/
theorem Shells.step_cases {own : Int} {s s' : Shells} {a : ShellAct}
    (hs : s.step own a = .ok s') : s.Stepped own a s' := by
  cases a with
  | shell sp starts =>
      cases sp with
      | pipeFails junk | forkFails =>
          obtain rfl := Except.ok.inj hs
          exact .shell nofun
      | forks pid group fd =>
          simp only [Shells.step] at hs
          split at hs
          · next hfree =>
            obtain rfl := Except.ok.inj hs
            refine .shell ?_
            rintro _ _ _ ⟨⟩
            exact hfree
          · cases hs
  | service pid group =>
      simp only [Shells.step] at hs
      split at hs
      · next hfree =>
        obtain rfl := Except.ok.inj hs
        exact .service hfree
      · cases hs
  | serviceWait i =>
      simp only [Shells.step] at hs
      split at hs
      · next c hc =>
        split at hs
        · next hg =>
          obtain rfl := Except.ok.inj hs
          exact .serviceWait hc hg.1 hg.2
        · cases hs
      · cases hs
  | exits i =>
      simp only [Shells.step] at hs
      split at hs
      · next c hc =>
        split at hs
        · next hrun =>
          obtain rfl := Except.ok.inj hs
          exact .exits hc hrun
        · cases hs
      · cases hs
  | waitpid j r =>
      simp only [Shells.step] at hs
      split at hs
      · next w hw =>
        split at hs
        · next hpc =>
          cases r with
          | reaps i =>
              simp only [Shells.waitpid] at hs
              split at hs
              · next c hc =>
                split at hs
                · next hm =>
                  obtain rfl := Except.ok.inj hs
                  exact .reaps hw hpc hc hm.1 hm.2
                · cases hs
              · cases hs
          | noChild =>
              simp only [Shells.waitpid] at hs
              split at hs
              · next hno =>
                obtain rfl := Except.ok.inj hs
                exact .noChild hw hpc hno
              · cases hs
          | interrupted =>
              obtain rfl := Except.ok.inj hs
              exact .interrupted hw hpc
        · cases hs
      · cases hs
  | notify j =>
      simp only [Shells.step] at hs
      split at hs
      · next w hw =>
        split at hs
        · next hpc =>
          obtain rfl := Except.ok.inj hs
          exact .notify hw hpc
        · cases hs
      · cases hs

/-! ### Waiters and children that belong together -/

/-- No failed spawn starts a thread. -/
def ShellAct.Sound : ShellAct → Prop
  | .shell (.pipeFails _) starts => starts = false
  | .shell .forkFails starts => starts = false
  | _ => True

instance : DecidablePred ShellAct.Sound := fun a =>
  match a with
  | .shell (.pipeFails _) starts => inferInstanceAs (Decidable (starts = false))
  | .shell .forkFails starts => inferInstanceAs (Decidable (starts = false))
  | .shell (.forks ..) _ => .isTrue trivial
  | .service .. => .isTrue trivial
  | .serviceWait _ => .isTrue trivial
  | .exits _ => .isTrue trivial
  | .waitpid .. => .isTrue trivial
  | .notify _ => .isTrue trivial

/-- The waiter `w` tends the child `i`: it was started for it, with its pid and its
descriptor, and it is as far as the child lets it be. -/
structure Waiter.Tends (w : Waiter) (i : Nat) (c : Child) : Prop where
  child : w.child = some i
  pid : w.pid = c.pid
  fd : c.shellFd = some w.fd
  state : w.pc = .waiting ↔ c.state ≠ .gone
  reaped : w.reaped = if w.pc = .waiting then [] else [i]
  posted : w.posted = if w.pc = .done then [w.fd] else []

/-- The children are numbered below the next number, and no two that were not waited for
have the same pid. -/
structure Shells.PidTable (s : Shells) : Prop where
  childFresh : ∀ i, s.children i ≠ none → i < s.nextChild
  pidPos : ∀ i c, s.children i = some c → 0 < c.pid
  pidInj : ∀ i i' c c', s.children i = some c → s.children i' = some c' →
    c.state ≠ .gone → c'.state ≠ .gone → c.pid = c'.pid → i = i'

/-- What holds as long as no failed spawn started a thread. -/
structure Shells.Inv (s : Shells) : Prop extends s.PidTable where
  waiterFresh : ∀ j, s.waiters j ≠ none → j < s.nextWaiter
  tends : ∀ j w, s.waiters j = some w → ∃ i c, s.children i = some c ∧ w.Tends i c
  childInj : ∀ j j' w w', s.waiters j = some w → s.waiters j' = some w' →
    w.child = w'.child → j = j'

theorem Shells.Inv.init : Shells.init.Inv where
  childFresh := fun _ h => absurd rfl h
  waiterFresh := fun _ h => absurd rfl h
  pidPos := nofun
  pidInj := nofun
  tends := nofun
  childInj := nofun

/-- A new child has a new number. -/
theorem Shells.addChild_old {s : Shells} (h : s.Inv) (c : Child) {i : Nat} {c' : Child}
    (hi : s.children i = some c') : (s.addChild c).children i = some c' := by
  have hne : i ≠ s.nextChild := Nat.ne_of_lt (h.childFresh i (by simp [hi]))
  simpa [Shells.addChild, Shells.putChild, hne] using hi

/-- The children after one was added. -/
theorem Shells.addChild_cases {s : Shells} {c c' : Child} {i : Nat}
    (hi : (s.addChild c).children i = some c') :
    i = s.nextChild ∧ c' = c ∨ s.children i = some c' := by
  by_cases hne : i = s.nextChild
  · left
    subst hne
    exact ⟨rfl, by simpa [Shells.addChild, Shells.putChild] using hi.symm⟩
  · right
    simpa [Shells.addChild, Shells.putChild, hne] using hi

/-- A child with a free pid comes into being. -/
theorem Shells.Inv.addChild {s : Shells} (h : s.Inv) {c : Child} (hpid : s.PidFree c.pid) :
    (s.addChild c).Inv where
  childFresh i hi := by
    obtain ⟨c', hc'⟩ := Option.ne_none_iff_exists'.mp hi
    obtain ⟨rfl, -⟩ | hold := Shells.addChild_cases hc'
    · exact Nat.lt_succ_self _
    · exact Nat.lt_succ_of_lt (h.childFresh i (by simp [hold]))
  waiterFresh := h.waiterFresh
  pidPos i c' hi := by
    obtain ⟨-, rfl⟩ | hold := Shells.addChild_cases hi
    · exact hpid.1
    · exact h.pidPos i c' hold
  pidInj i i' c₁ c₂ h₁ h₂ hg₁ hg₂ heq := by
    have hold : ∀ i c', s.children i = some c' → c'.state ≠ .gone → c'.pid ≠ c.pid :=
      fun i c' hi => hpid.2 i (h.childFresh i (by simp [hi])) c' hi
    obtain ⟨rfl, rfl⟩ | ho₁ := Shells.addChild_cases h₁ <;>
      obtain ⟨rfl, rfl⟩ | ho₂ := Shells.addChild_cases h₂
    · rfl
    · exact absurd heq.symm (hold i' c₂ ho₂ hg₂)
    · exact absurd heq (hold i c₁ ho₁ hg₁)
    · exact h.pidInj i i' c₁ c₂ ho₁ ho₂ hg₁ hg₂ heq
  tends j w hw := by
    obtain ⟨i, c', hi, ht⟩ := h.tends j w hw
    exact ⟨i, c', Shells.addChild_old h c hi, ht⟩
  childInj := h.childInj

/-- A waiter is started for a child that no other waiter tends. -/
theorem Shells.Inv.addWaiter {s : Shells} (h : s.Inv) {w : Waiter} {i : Nat} {c : Child}
    (hc : s.children i = some c) (ht : w.Tends i c)
    (hnew : ∀ j w', s.waiters j = some w' → w'.child ≠ some i) : (s.addWaiter w).Inv := by
  have hcases : ∀ j w', (s.addWaiter w).waiters j = some w' →
      j = s.nextWaiter ∧ w' = w ∨ s.waiters j = some w' := by
    intro j w' hj
    by_cases hne : j = s.nextWaiter
    · left
      subst hne
      exact ⟨rfl, by simpa [Shells.addWaiter, Shells.putWaiter] using hj.symm⟩
    · right
      simpa [Shells.addWaiter, Shells.putWaiter, hne] using hj
  refine ⟨⟨h.childFresh, h.pidPos, h.pidInj⟩, ?_, ?_, ?_⟩
  · intro j hj
    obtain ⟨w', hw'⟩ := Option.ne_none_iff_exists'.mp hj
    obtain ⟨rfl, -⟩ | hold := hcases j w' hw'
    · exact Nat.lt_succ_self _
    · exact Nat.lt_succ_of_lt (h.waiterFresh j (by simp [hold]))
  · intro j w' hj
    obtain ⟨-, rfl⟩ | hold := hcases j w' hj
    · exact ⟨i, c, hc, ht⟩
    · exact h.tends j w' hold
  · intro j j' w₁ w₂ h₁ h₂ heq
    obtain ⟨rfl, rfl⟩ | ho₁ := hcases j w₁ h₁ <;> obtain ⟨rfl, rfl⟩ | ho₂ := hcases j' w₂ h₂
    · rfl
    · exact absurd (heq.symm.trans ht.child) (hnew j' w₂ ho₂)
    · exact absurd (heq.trans ht.child) (hnew j w₁ ho₁)
    · exact h.childInj j j' w₁ w₂ ho₁ ho₂ heq

/-- The children after one was overwritten. -/
theorem Shells.putChild_cases {s : Shells} {c c' : Child} {i i' : Nat}
    (hi : (s.putChild i c).children i' = some c') : i' = i ∧ c' = c ∨ i' ≠ i ∧
      s.children i' = some c' := by
  by_cases hne : i' = i
  · left
    subst hne
    exact ⟨rfl, by simpa [Shells.putChild] using hi.symm⟩
  · right
    exact ⟨hne, by simpa [Shells.putChild, hne] using hi⟩

@[simp] theorem Shells.putChild_self (s : Shells) (i : Nat) (c : Child) :
    (s.putChild i c).children i = some c := by
  simp [Shells.putChild]

theorem Shells.putChild_of_ne (s : Shells) {i i' : Nat} (c : Child) (h : i' ≠ i) :
    (s.putChild i c).children i' = s.children i' := by
  simp [Shells.putChild, h]

/-- A child changes its state. -/
theorem Shells.PidTable.putChild {s : Shells} (h : s.PidTable) {i : Nat} {c c' : Child}
    (hc : s.children i = some c) (hpid : c'.pid = c.pid)
    (hlive : c'.state ≠ .gone → c.state ≠ .gone) : (s.putChild i c').PidTable where
  childFresh i' hi := by
    obtain ⟨c₁, hc₁⟩ := Option.ne_none_iff_exists'.mp hi
    obtain ⟨rfl, -⟩ | ⟨-, hold⟩ := Shells.putChild_cases hc₁
    · exact h.childFresh i' (by simp [hc])
    · exact h.childFresh i' (by simp [hold])
  pidPos i' c₁ hi := by
    obtain ⟨-, rfl⟩ | ⟨-, hold⟩ := Shells.putChild_cases hi
    · exact hpid ▸ h.pidPos i c hc
    · exact h.pidPos i' c₁ hold
  pidInj i₁ i₂ c₁ c₂ h₁ h₂ hg₁ hg₂ heq := by
    obtain ⟨rfl, rfl⟩ | ⟨-, ho₁⟩ := Shells.putChild_cases h₁ <;>
      obtain ⟨rfl, rfl⟩ | ⟨-, ho₂⟩ := Shells.putChild_cases h₂
    · rfl
    · exact h.pidInj _ i₂ c c₂ hc ho₂ (hlive hg₁) hg₂ (hpid ▸ heq)
    · exact h.pidInj i₁ _ c₁ c ho₁ hc hg₁ (hlive hg₂) (hpid ▸ heq)
    · exact h.pidInj i₁ i₂ c₁ c₂ ho₁ ho₂ hg₁ hg₂ heq

/-- A child changes its state, and whoever tends it is as far as the new state lets it be. -/
theorem Shells.Inv.putChild {s : Shells} (h : s.Inv) {i : Nat} {c c' : Child}
    (hc : s.children i = some c) (hpid : c'.pid = c.pid)
    (hlive : c'.state ≠ .gone → c.state ≠ .gone)
    (htend : ∀ w : Waiter, w.Tends i c → w.Tends i c') : (s.putChild i c').Inv where
  toPidTable := h.toPidTable.putChild hc hpid hlive
  waiterFresh := h.waiterFresh
  tends j w hw := by
    obtain ⟨i', c₁, hi', ht⟩ := h.tends j w hw
    by_cases hne : i' = i
    · subst hne
      obtain rfl := Option.some.inj (hi'.symm.trans hc)
      exact ⟨i', c', s.putChild_self i' c', htend w ht⟩
    · exact ⟨i', c₁, (s.putChild_of_ne c' hne).trans hi', ht⟩
  childInj := h.childInj

/-- A waiter and the child it tends go on together. -/
theorem Shells.Inv.putBoth {s : Shells} (h : s.Inv) {i j : Nat} {c c' : Child} {w w' : Waiter}
    (hc : s.children i = some c) (hw : s.waiters j = some w) (ht : w.Tends i c)
    (hpid : c'.pid = c.pid) (hlive : c'.state ≠ .gone → c.state ≠ .gone)
    (ht' : w'.Tends i c') : ((s.putChild i c').putWaiter j w').Inv := by
  have hcases : ∀ j' w₁, ((s.putChild i c').putWaiter j w').waiters j' = some w₁ →
      j' = j ∧ w₁ = w' ∨ j' ≠ j ∧ s.waiters j' = some w₁ := by
    intro j' w₁ hj
    by_cases hne : j' = j
    · left
      subst hne
      exact ⟨rfl, by simpa [Shells.putWaiter] using hj.symm⟩
    · right
      exact ⟨hne, by simpa [Shells.putWaiter, Shells.putChild, hne] using hj⟩
  have hother : ∀ j' w₁, j' ≠ j → s.waiters j' = some w₁ → w₁.child ≠ some i :=
    fun j' w₁ hne h₁ heq => hne (h.childInj j' j w₁ w h₁ hw (heq.trans ht.child.symm))
  have htable := h.toPidTable.putChild hc hpid hlive
  refine ⟨⟨htable.childFresh, htable.pidPos, htable.pidInj⟩, ?_, ?_, ?_⟩
  · intro j' hj
    obtain ⟨w₁, hw₁⟩ := Option.ne_none_iff_exists'.mp hj
    obtain ⟨rfl, -⟩ | ⟨-, hold⟩ := hcases j' w₁ hw₁
    · exact h.waiterFresh j' (by simp [hw])
    · exact h.waiterFresh j' (by simp [hold])
  · intro j' w₁ hj
    obtain ⟨-, rfl⟩ | ⟨hne, hold⟩ := hcases j' w₁ hj
    · exact ⟨i, c', s.putChild_self i c', ht'⟩
    · obtain ⟨i', c₁, hi', ht₁⟩ := h.tends j' w₁ hold
      have hne' : i' ≠ i := fun heq => hother j' w₁ hne hold (heq ▸ ht₁.child)
      exact ⟨i', c₁, (s.putChild_of_ne c' hne').trans hi', ht₁⟩
  · intro j₁ j₂ w₁ w₂ h₁ h₂ heq
    obtain ⟨rfl, rfl⟩ | ⟨hn₁, ho₁⟩ := hcases j₁ w₁ h₁ <;>
      obtain ⟨rfl, rfl⟩ | ⟨hn₂, ho₂⟩ := hcases j₂ w₂ h₂
    · rfl
    · exact absurd (heq.symm.trans ht'.child) (hother j₂ w₂ hn₂ ho₂)
    · exact absurd (heq.trans ht'.child) (hother j₁ w₁ hn₁ ho₁)
    · exact h.childInj j₁ j₂ w₁ w₂ ho₁ ho₂ heq

/-! ### What every step preserves -/

/-- Starting a shell. -/
theorem Shells.Inv.createSubprocThread {s : Shells} (h : s.Inv) {sp : Spawn} {starts : Bool}
    (hpid : ∀ pid group fd, sp = .forks pid group fd → s.PidFree pid)
    (hsound : (ShellAct.shell sp starts).Sound) : (createSubprocThread s sp starts).Inv := by
  cases sp with
  | pipeFails junk =>
      obtain rfl : starts = false := hsound
      exact h
  | forkFails =>
      obtain rfl : starts = false := hsound
      exact h
  | forks pid group fd =>
      have hadd : (s.addChild { pid := pid, group := group, shellFd := some fd }).Inv :=
        h.addChild (hpid pid group fd rfl)
      cases starts with
      | false => exact hadd
      | true =>
          have hc : (s.addChild { pid := pid, group := group, shellFd := some fd }).children
              s.nextChild = some { pid := pid, group := group, shellFd := some fd } := by
            simp [Shells.addChild, Shells.putChild]
          refine hadd.addWaiter hc ⟨rfl, rfl, rfl, by simp, rfl, rfl⟩ ?_
          intro j w hw hchild
          obtain ⟨i, c, hi, ht⟩ := h.tends j w hw
          obtain rfl := Option.some.inj (ht.child.symm.trans hchild)
          exact Nat.lt_irrefl _ (h.childFresh _ (by simp [hi]))

/-- A `waitpid` that found the child of the waiter, and not another one. -/
theorem Shells.Inv.reaps {own : Int} {s : Shells} (h : s.Inv) {i j : Nat} {c : Child}
    {w : Waiter}
    (hw : s.waiters j = some w) (hpc : w.pc = .waiting) (hc : s.children i = some c)
    (hexit : c.state = .exited) (hm : c.Matches own w.pid) :
    ((s.putChild i { c with state := .gone }).putWaiter j
      ({ w with reaped := i :: w.reaped }.turn c.pid)).Inv := by
  obtain ⟨i', c', hc', ht⟩ := h.tends j w hw
  have hpos : 0 < w.pid := ht.pid ▸ h.pidPos i' c' hc'
  rw [Child.Matches, if_pos hpos] at hm
  obtain rfl : i = i' :=
    h.pidInj i i' c c' hc hc' (by simp [hexit]) (ht.state.mp hpc) (hm.trans ht.pid)
  obtain rfl := Option.some.inj (hc.symm.trans hc')
  refine h.putBoth hc hw ht rfl (fun hg => absurd rfl hg) ?_
  rw [Waiter.turn, if_pos hm]
  have hreaped : w.reaped = [] := by rw [ht.reaped, if_pos hpc]
  have hposted : w.posted = [] := by rw [ht.posted, hpc, if_neg (by decide)]
  exact ⟨ht.child, ht.pid, ht.fd, by simp, by simp [hreaped], by simp [hposted]⟩

/-- A `waitpid` that returned `-1` leaves the waiter as it is. -/
theorem Shells.Inv.turn_failed {s : Shells} (h : s.Inv) {j : Nat} {w : Waiter}
    (hw : s.waiters j = some w) : s.putWaiter j (w.turn (-1)) = s := by
  obtain ⟨i, c, hc, ht⟩ := h.tends j w hw
  have hpos : 0 < w.pid := ht.pid ▸ h.pidPos i c hc
  rw [Waiter.turn, if_neg (by omega), Shells.putWaiter,
    Function.update_eq_self_iff.mpr hw.symm]

/-- A waiter writes its notification. -/
theorem Shells.Inv.notify {s : Shells} (h : s.Inv) {j : Nat} {w : Waiter}
    (hw : s.waiters j = some w) (hpc : w.pc = .leaving) :
    (s.putWaiter j { w with posted := w.posted ++ [w.fd], pc := .done }).Inv := by
  obtain ⟨i, c, hc, ht⟩ := h.tends j w hw
  have hgone : c.state = .gone := by
    by_contra hne
    cases hpc.symm.trans (ht.state.mpr hne)
  have hreaped : w.reaped = [i] := by rw [ht.reaped, hpc, if_neg (by decide)]
  have hposted : w.posted = [] := by rw [ht.posted, hpc, if_neg (by decide)]
  have hself : s.putChild i c = s := by
    rw [Shells.putChild, Function.update_eq_self_iff.mpr hc.symm]
  rw [← hself]
  refine h.putBoth hc hw ht rfl id ?_
  exact ⟨ht.child, ht.pid, ht.fd, by simp [hgone], by simp [hreaped], by simp [hposted]⟩

/-- **Step lemma.** No step breaks the match as long as no failed spawn starts a thread. -/
theorem Shells.Inv.step {own : Int} {s s' : Shells} {a : ShellAct} (h : s.Inv) (ha : a.Sound)
    (hs : s.step own a = .ok s') : s'.Inv := by
  cases Shells.step_cases hs with
  | shell hfree =>
      exact h.createSubprocThread (fun pid group fd heq => (hfree pid group fd heq).1) ha
  | service hfree => exact h.addChild hfree
  | serviceWait hc hexit hfd =>
      refine h.putChild hc rfl (fun hgone => absurd rfl hgone) fun w ht => ?_
      cases hfd.symm.trans ht.fd
  | exits hc hrun =>
      refine h.putChild hc rfl (fun _ => by simp [hrun]) fun w ht => ?_
      refine ⟨ht.child, ht.pid, ht.fd, ?_, ht.reaped, ht.posted⟩
      rw [ht.state, hrun]
      simp
  | reaps hw hpc hc hexit hm => exact h.reaps hw hpc hc hexit hm
  | noChild hw => exact (h.turn_failed hw).symm ▸ h
  | interrupted hw => exact (h.turn_failed hw).symm ▸ h
  | notify hw hpc => exact h.notify hw hpc

/-! ### Matching -/

/-- The waiter `j` and the child `i` belong together: the waiter was started for the child
and carries its descriptor, it reaps no other child, it ends its wait only when its child
has exited and then at its next uninterrupted `waitpid`, and it posts its descriptor once. -/
structure Waiter.Matched (own : Int) (s : Shells) (j : Nat) (w : Waiter) (i : Nat)
    (c : Child) : Prop where
  child : w.child = some i
  fd : c.shellFd = some w.fd
  reapsOwn : ∀ i' ∈ w.reaped, i' = i
  afterExit : w.pc ≠ .waiting → c.state = .gone
  postsOnce : w.posted = if w.pc = .done then [w.fd] else []
  wakes : w.pc = .waiting → c.state ≠ .running →
    ∃ s', s.step own (.waitpid j (.reaps i)) = .ok s'
  leaves : ∀ r s', r ≠ .interrupted → s.step own (.waitpid j r) = .ok s' →
    (s'.waiters j).map (·.pc) = some .leaving
  finishes : w.pc = .leaving →
    ∃ s', s.step own (.notify j) = .ok s' ∧ (s'.waiters j).map (·.pc) = some .done

/-- Every waiter and a child belong together. -/
def Shells.Matched (own : Int) (s : Shells) : Prop :=
  ∀ j w, s.waiters j = some w → ∃ i c, s.children i = some c ∧ w.Matched own s j i c

/-- The waiters of a state with the invariant match. -/
theorem Shells.Inv.matched {own : Int} {s : Shells} (h : s.Inv) : s.Matched own := by
  intro j w hw
  obtain ⟨i, c, hc, ht⟩ := h.tends j w hw
  have hpos : 0 < w.pid := ht.pid ▸ h.pidPos i c hc
  have hmatch : c.Matches own w.pid := by
    rw [Child.Matches, if_pos hpos]
    exact ht.pid.symm
  refine ⟨i, c, hc, ht.child, ht.fd, ?_, ?_, ht.posted, ?_, ?_, ?_⟩
  · intro i' hi'
    rw [ht.reaped] at hi'
    split at hi'
    · cases hi'
    · exact List.mem_singleton.mp hi'
  · intro hpc
    by_contra hne
    exact hpc (ht.state.mpr hne)
  · intro hpc hrun
    have hexit : c.state = .exited := by
      have hgone := ht.state.mp hpc
      cases hst : c.state with
      | running => exact absurd hst hrun
      | exited => rfl
      | gone => exact absurd hst hgone
    simp [Shells.step, Shells.waitpid, hw, hpc, hc, hexit, hmatch]
  · intro r s' hr hs
    cases Shells.step_cases hs with
    | @reaps i' _ c' w' hw' hpc hc' hexit hm =>
        obtain rfl := Option.some.inj (hw.symm.trans hw')
        have heq : c'.pid = w.pid := by rwa [Child.Matches, if_pos hpos] at hm
        simp [Shells.putWaiter, Waiter.turn, heq]
    | noChild hw' hpc hno =>
        obtain rfl := Option.some.inj (hw.symm.trans hw')
        exact absurd hmatch (hno i (h.childFresh i (by simp [hc])) c hc (ht.state.mp hpc))
    | interrupted => exact absurd rfl hr
  · intro hpc
    simp [Shells.step, hw, hpc, Shells.putWaiter]

/-- No step takes away a waiter or the child it was started for. -/
theorem Shells.step_waiter {own : Int} {s s' : Shells} {a : ShellAct}
    (hs : s.step own a = .ok s')
    {j : Nat} {w : Waiter} (hj : j < s.nextWaiter) (hw : s.waiters j = some w) :
    j < s'.nextWaiter ∧ ∃ w', s'.waiters j = some w' ∧ w'.child = w.child := by
  have hput : ∀ (s₁ : Shells) (j' : Nat) (w₀ w₁ : Waiter), s₁.waiters = s.waiters →
      s.waiters j' = some w₀ → w₁.child = w₀.child →
      ∃ w', (s₁.putWaiter j' w₁).waiters j = some w' ∧ w'.child = w.child := by
    intro s₁ j' w₀ w₁ h₁ h₀ hchild
    by_cases hne : j = j'
    · subst hne
      obtain rfl := Option.some.inj (h₀.symm.trans hw)
      exact ⟨w₁, by simp [Shells.putWaiter], hchild⟩
    · exact ⟨w, by simpa [Shells.putWaiter, hne, h₁] using hw, rfl⟩
  have hturn : ∀ (w₀ : Waiter) (p : Int), (w₀.turn p).child = w₀.child := by
    intro w₀ p
    rw [Waiter.turn]
    split <;> rfl
  have hthread : ∀ sp starts, j < (createSubprocThread s sp starts).nextWaiter ∧
      ∃ w', (createSubprocThread s sp starts).waiters j = some w' ∧ w'.child = w.child := by
    intro sp starts
    have hne : j ≠ s.nextWaiter := Nat.ne_of_lt hj
    cases sp <;> cases starts <;>
      simp [createSubprocThread, createSubprocess, Shells.addWaiter, Shells.putWaiter,
        Shells.addChild, Shells.putChild, hne, hw, hj, Nat.lt_succ_of_lt hj]
  cases Shells.step_cases hs with
  | shell => exact hthread _ _
  | service | serviceWait | exits => exact ⟨hj, w, hw, rfl⟩
  | reaps hw₀ | noChild hw₀ | interrupted hw₀ => exact ⟨hj, hput _ _ _ _ rfl hw₀ (hturn ..)⟩
  | notify hw₀ => exact ⟨hj, hput _ _ _ _ rfl hw₀ rfl⟩

/-- A waiter that was started for no child. -/
def Shells.Stray (s : Shells) : Prop :=
  ∃ j w, j < s.nextWaiter ∧ s.waiters j = some w ∧ w.child = none

/-- A failed spawn that starts a thread leaves a waiter without a child. -/
theorem Shells.stray_of_not_sound {own : Int} {s s' : Shells} {a : ShellAct}
    (hs : s.step own a = .ok s') (ha : ¬ a.Sound) : s'.Stray := by
  have hstray : ∀ pid : Int, (s.addWaiter { pid := pid, fd := -1, child := none }).Stray :=
    fun pid => ⟨s.nextWaiter, { pid := pid, fd := -1, child := none }, Nat.lt_succ_self _,
      by simp [Shells.addWaiter, Shells.putWaiter], rfl⟩
  cases Shells.step_cases hs with
  | @shell sp starts =>
      cases sp with
      | pipeFails junk =>
          obtain rfl : starts = true := by simpa [ShellAct.Sound] using ha
          exact hstray junk
      | forkFails =>
          obtain rfl : starts = true := by simpa [ShellAct.Sound] using ha
          exact hstray (-1)
      | forks pid group fd => exact absurd trivial ha
  | service | serviceWait | exits | reaps | noChild | interrupted | notify =>
      exact absurd trivial ha

/-- A stray waiter stays one. -/
theorem Shells.Stray.step {own : Int} {s s' : Shells} {a : ShellAct} (h : s.Stray)
    (hs : s.step own a = .ok s') : s'.Stray := by
  obtain ⟨j, w, hj, hw, hchild⟩ := h
  obtain ⟨hj', w', hw', hchild'⟩ := Shells.step_waiter hs hj hw
  exact ⟨j, w', hj', hw', hchild'.trans hchild⟩

theorem Shells.Stray.not_matched {own : Int} {s : Shells} (h : s.Stray) : ¬ s.Matched own := by
  obtain ⟨j, w, -, hw, hchild⟩ := h
  intro hm
  obtain ⟨i, c, -, hm⟩ := hm j w hw
  cases hchild.symm.trans hm.child

/-! ### Sequences of steps -/

/-- The state after these steps, if they are possible one after the other. -/
def Shells.after (own : Int) (s : Shells) (as : List ShellAct) : Option Shells :=
  Trans.follow (Shells.step own) (fun _ _ => true) s as

theorem Shells.after_cons {own : Int} {s s' : Shells} {a : ShellAct} {as : List ShellAct}
    (h : s.after own (a :: as) = some s') : ∃ s₁, s.step own a = .ok s₁ ∧
      s₁.after own as = some s' := by
  rw [Shells.after, Trans.follow, if_pos rfl] at h
  split at h
  · next s₁ hs => exact ⟨s₁, hs, h⟩
  · cases h

theorem Shells.Inv.after {own : Int} {s s' : Shells} {as : List ShellAct} (h : s.Inv)
    (has : ∀ a ∈ as, a.Sound) (hs : s.after own as = some s') : s'.Inv := by
  induction as generalizing s with
  | nil =>
      obtain rfl := Option.some.inj hs
      exact h
  | cons a as ih =>
      obtain ⟨s₁, hs₁, hs⟩ := Shells.after_cons hs
      obtain ⟨ha, has⟩ := List.forall_mem_cons.mp has
      exact ih (h.step ha hs₁) has hs

theorem Shells.Stray.after {own : Int} {s s' : Shells} {as : List ShellAct} (h : s.Stray)
    (hs : s.after own as = some s') : s'.Stray := by
  induction as generalizing s with
  | nil =>
      obtain rfl := Option.some.inj hs
      exact h
  | cons a as ih =>
      obtain ⟨s₁, hs₁, hs⟩ := Shells.after_cons hs
      exact ih (h.step hs₁) hs

/-- If one of the steps was a failed spawn that started a thread, there is a stray waiter
in the end. -/
theorem Shells.stray_after {own : Int} {s s' : Shells} {as : List ShellAct}
    (hs : s.after own as = some s') (has : ¬ ∀ a ∈ as, a.Sound) : s'.Stray := by
  induction as generalizing s with
  | nil => exact absurd (List.forall_mem_nil _) has
  | cons a as ih =>
      obtain ⟨s₁, hs₁, hs⟩ := Shells.after_cons hs
      by_cases ha : a.Sound
      · exact ih hs fun hall => has (List.forall_mem_cons.mpr ⟨ha, hall⟩)
      · exact (Shells.stray_of_not_sound hs₁ ha).after hs

/-- **Waiters.** After any sequence of steps, in whatever order shells are opened, children
exit and threads run, waiters and children belong together exactly if no failed
`create_subprocess` was followed by the start of a thread. -/
theorem waiters_matched_iff (own : Int) {s : Shells} {as : List ShellAct}
    (h : Shells.init.after own as = some s) : s.Matched own ↔ ∀ a ∈ as, a.Sound := by
  constructor
  · intro hm
    by_contra has
    exact (Shells.stray_after h has).not_matched hm
  · intro has
    exact (Shells.Inv.init.after has h).matched

/-- Two shells, of which the second exits first. -/
def twoShells : List ShellAct :=
  [.shell (.forks 100 1 7) true, .service 101 1, .shell (.forks 102 1 8) true, .exits 2,
    .waitpid 1 (.reaps 2), .notify 1]

theorem waiters_matched_two_shells :
    ∃ s, Shells.init.after 1 twoShells = some s ∧ s.Matched 1 := by
  have hsome : (Shells.init.after 1 twoShells).isSome = true := by decide +kernel
  obtain ⟨s, hs⟩ := Option.isSome_iff_exists.mp hsome
  exact ⟨s, hs, (waiters_matched_iff 1 hs).mpr (by decide)⟩

/-- A shell runs; another cannot be forked, but its waiter is started, with the pid `-1`; the
first shell exits and is reaped by that waiter, and its own waiter finds no child any more. -/
theorem failed_spawn_reaps_shell :
    ∃ s, Shells.init.after 1
        [.shell (.forks 100 1 7) true, .shell .forkFails true, .exits 0, .waitpid 1 (.reaps 0),
          .waitpid 0 .noChild] = some s ∧
      s.waiters 1 = some { pid := -1, fd := -1, child := none, reaped := [0] } ∧
      s.waiters 0 = some { pid := 100, fd := 7, child := some 0 } ∧ ¬ s.Matched 1 := by
  have hrun : (Shells.init.after 1
      [.shell (.forks 100 1 7) true, .shell .forkFails true, .exits 0, .waitpid 1 (.reaps 0),
        .waitpid 0 .noChild]).any (fun s =>
          s.waiters 1 = some { pid := -1, fd := -1, child := none, reaped := [0] } ∧
          s.waiters 0 = some { pid := 100, fd := 7, child := some 0 }) = true := by
    decide +kernel
  obtain ⟨s, hs, hw⟩ := (Option.any_eq_true _ _).mp hrun
  obtain ⟨h₁, h₀⟩ := of_decide_eq_true hw
  refine ⟨s, hs, h₁, h₀, fun hm => ?_⟩
  obtain ⟨i, c, -, hm⟩ := hm 1 _ h₁
  cases hm.child

end Adbd
