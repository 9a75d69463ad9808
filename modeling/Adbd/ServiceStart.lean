import Adbd.ServiceFds

/-!
# What a Service Start Leaves Open

`service_to_fd` opens descriptors, gives two of them to its caller and others to the thread it
starts, and closes the rest; if it fails it should close all of them. Its parts clean up with
different care. `create_service_thread` closes both its pipes if there is no thread, but not
the first if there is no second. `backup_service` does the same with three pipes; and behind
the `fork` it forgets one end of the pipe that stands for the direction that is not used,
whether it fails or not.

## Main definitions

* `FdTable.ends`: how the next calls end.
* `handedOver`: the descriptors for the service thread, or for the debugged process.
* `StartKeeps`: a start leaves open what was open, what it hands out and what it hands over.
* `CleanStart`: the calls end in a way the parts clean up after.

## Main results

* `FdTable.pipe_cases`: what a pipe opens.
* `createServiceThread_keeps_iff`, `backupService_keeps_iff`: the parts that leak.
* `start_keeps_iff`: when a start leaves nothing else open.
-/

namespace Adbd

open CString

namespace FdTable

/-- The number is that of an open descriptor. -/
def Open (s : FdTable) (n : Nat) : Prop := n ∈ s.fds.map Prod.fst

instance (s : FdTable) (n : Nat) : Decidable (s.Open n) :=
  inferInstanceAs (Decidable (n ∈ _))

/-- How the call after `i` others ends. -/
def ends (s : FdTable) (i : Nat) : Bool := s.calls[i]?.getD true

/-- The descriptors in the `stinfo` of the thread that `create_service_thread` starts. -/
def stinfo (s : FdTable) : List Nat :=
  match s.pipe with
  | (none, _) => []
  | (some svcToFw, s) =>
      match s.pipe with
      | (none, _) => []
      | (some fwToSvc, _) => [fwToSvc.1, svcToFw.2]

/-- The descriptor that `create_jdwp_connection_fd` adds to `proc->out_fds`. -/
def outFd (s : FdTable) : List Nat :=
  match s.pipe with
  | (none, _) => []
  | (some fds, _) => [fds.2]

end FdTable

/-- The descriptors for the service thread, or for the debugged process. The threads that wait
for a shell or a backup have one that is handed out, too. -/
def handedOver (b : Build) (s : FdTable) (name : List UInt8) : List Nat :=
  match serviceOf b s.recovery name with
  | some (_, .thread) => s.stinfo
  | some (_, .threadArg) => s.call.2.stinfo
  | some (_, .jdwp) => s.outFd
  | _ => []

/-- What a start with the given result keeps open. -/
def Keeps (s : FdTable) (owned : List Nat) (r : Option (Nat × Nat) × FdTable) : Prop :=
  match r.1 with
  | none => ∀ n, r.2.Open n ↔ s.Open n
  | some out => ∀ n, r.2.Open n ↔ s.Open n ∨ n = out.1 ∨ n = out.2 ∨ n ∈ owned

/-- **A start leaves nothing behind**: if it fails, the same descriptors are open as before,
and otherwise those, the ones it hands out and the ones it hands over. -/
def StartKeeps (b : Build) (s : FdTable) (name : List UInt8) : Prop :=
  Keeps s (handedOver b s name) (serviceToFd b s name)

/-- `create_service_thread` gets both its pipes or not even the first; the calls start behind
`k` others. -/
def ThreadClean (s : FdTable) (k : Nat) : Prop := s.ends k = true → s.ends (k + 1) = true

/-- `backup_service` gets no pipe, or all of them and then no memory for the arguments, or no
process. -/
def BackupClean (s : FdTable) (k : Nat) : Prop :=
  s.ends k = true → s.ends (k + 1) = true ∧ s.ends (k + 2) = true ∧
    (s.ends (k + 3) = true → s.ends (k + 4) = false)

/-- **A start is clean**: a service thread gets both its pipes or not even the first; a backup
or restore fails, with its first pipe or, if it has all three, before there is a process. -/
def CleanStart (b : Build) (s : FdTable) (name : List UInt8) : Prop :=
  match serviceOf b s.recovery name with
  | some (_, .thread) => ThreadClean s 0
  | some (_, .threadArg) => s.ends 0 = true → ThreadClean s 1
  | some (_, .backup) => s.ends 0 = true → BackupClean s 1
  | some (_, .restore) => BackupClean s 0
  | _ => True

namespace FdTable

variable {s s' : FdTable}

/-! ### Single calls -/

theorem ends_tail (s : FdTable) (i : Nat) :
    ({ s with calls := s.calls.tail }).ends i = s.ends (i + 1) := by
  rw [ends, ends, List.getElem?_tail]

@[simp] theorem open_calls (s : FdTable) (cs : List Bool) (n : Nat) :
    ({ s with calls := cs }).Open n ↔ s.Open n := Iff.rfl

theorem call_eq (s : FdTable) : s.call = (s.ends 0, { s with calls := s.calls.tail }) := by
  obtain ⟨fds, calls, jdwp, recovery⟩ := s
  cases calls <;> rfl

theorem open_add (s : FdTable) (a : Access) (n : Nat) :
    (s.add a).2.Open n ↔ n = (s.add a).1 ∨ s.Open n := by
  simp [add, Open]

theorem not_open_add (s : FdTable) (a : Access) : ¬s.Open (s.add a).1 := lowestFree_notMem _

theorem open_close (s : FdTable) (m n : Nat) : (s.close m).Open n ↔ s.Open n ∧ n ≠ m := by
  simp [close, Open]

theorem open_closePipe (s : FdTable) (p : Nat × Nat) (n : Nat) :
    (s.closePipe p).Open n ↔ s.Open n ∧ n ≠ p.1 ∧ n ≠ p.2 := by
  rw [closePipe, open_close, open_close, and_assoc]

@[simp] theorem ends_close (s : FdTable) (m i : Nat) : (s.close m).ends i = s.ends i := rfl

@[simp] theorem ends_closePipe (s : FdTable) (p : Nat × Nat) (i : Nat) :
    (s.closePipe p).ends i = s.ends i := rfl

/-- A pipe opens two descriptors that were not open. -/
structure Pipes (s s' : FdTable) (p : Nat × Nat) : Prop where
  ends : ∀ i, s'.ends i = s.ends (i + 1)
  opens : ∀ n, s'.Open n ↔ s.Open n ∨ n = p.1 ∨ n = p.2
  fresh_read : ¬s.Open p.1
  fresh_write : ¬s.Open p.2
  ne : p.1 ≠ p.2

/-- **What a pipe opens.** -/
theorem pipe_cases (s : FdTable) :
    s.ends 0 = false ∧ (∃ s', s.pipe = (none, s') ∧ ∀ n, s'.Open n ↔ s.Open n) ∨
      s.ends 0 = true ∧ ∃ p s', s.pipe = (some p, s') ∧ Pipes s s' p := by
  rw [pipe, call_eq]
  cases h : s.ends 0 with
  | false => exact .inl ⟨rfl, _, rfl, fun n => Iff.rfl⟩
  | true =>
      let s₁ : FdTable := { s with calls := s.calls.tail }
      have hread := not_open_add s₁ .read
      have hwrite := not_open_add (s₁.add .read).2 .write
      rw [open_add, not_or] at hwrite
      refine .inr ⟨rfl, _, _, rfl, ends_tail s, fun n => ?_, hread, hwrite.2, Ne.symm hwrite.1⟩
      rw [open_add, open_add]
      change n = _ ∨ n = _ ∨ s.Open n ↔ _
      tauto

/-- What was open is not an end of the new pipe. -/
theorem Pipes.ne_of_open {p : Nat × Nat} {n : Nat} (h : Pipes s s' p) (hn : s.Open n) :
    n ≠ p.1 ∧ n ≠ p.2 :=
  ⟨fun heq => h.fresh_read (heq ▸ hn), fun heq => h.fresh_write (heq ▸ hn)⟩

/-- Closing both ends of the new pipe leaves what was open before. -/
theorem Pipes.closed {p : Nat × Nat} (h : Pipes s s' p) (n : Nat) :
    s'.Open n ∧ n ≠ p.1 ∧ n ≠ p.2 ↔ s.Open n := by
  constructor
  · rintro ⟨hn, h₁, h₂⟩
    rcases (h.opens n).mp hn with hn | hn | hn
    · exact hn
    · exact absurd hn h₁
    · exact absurd hn h₂
  · exact fun hn => ⟨(h.opens n).mpr (.inl hn), h.ne_of_open hn⟩

/-! ### The parts -/

/-- **A service thread** leaves its first pipe behind if it does not get the second. -/
theorem createServiceThread_keeps_iff (s : FdTable) :
    Keeps s s.stinfo s.createServiceThread ↔ ThreadClean s 0 := by
  rw [createServiceThread, stinfo, ThreadClean]
  rcases pipe_cases s with ⟨h₀, s₁, hp, hsame⟩ | ⟨h₀, p, s₁, hp, hP⟩
  · simp [hp, h₀, Keeps, hsame]
  rcases pipe_cases s₁ with ⟨h₁, s₂, hq, hsame⟩ | ⟨h₁, q, s₂, hq, hQ⟩
  · -- the first pipe stays open
    rw [hP.ends] at h₁
    simp only [hp, hq, h₀, h₁, Keeps]
    refine iff_of_false (fun h => hP.fresh_read ?_) (by simp)
    rw [← h p.1, hsame, hP.opens]
    exact .inr (.inl rfl)
  · rw [hP.ends] at h₁
    refine iff_of_true ?_ fun _ => h₁
    simp only [hp, hq, call_eq]
    cases s₂.ends 0 with
    | false =>
        intro n
        rw [open_closePipe, open_closePipe, open_calls, and_right_comm, hQ.closed, hP.closed]
    | true =>
        intro n
        simp only [open_calls, hQ.opens, hP.opens, List.mem_cons, List.not_mem_nil, or_false]
        tauto

/-- A descriptor that is neither handed out nor closed stays open. -/
theorem not_keeps_rest {t : FdTable} {x parent other : Nat} (hx : t.Open x) (hs : ¬s.Open x)
    (h₁ : x ≠ parent) (h₂ : x ≠ other) : ¬Keeps s []
      (match t.call with
      | (false, t) => (none, t.closePipe (parent, other))
      | (true, t) =>
          match t.call with
          | (false, t) => (none, t.closePipe (parent, other))
          | (true, t) => (some (parent, other), t)) := by
  have hclosed : (t.closePipe (parent, other)).Open x := (open_closePipe ..).mpr ⟨hx, h₁, h₂⟩
  simp only [call_eq]
  cases t.ends 0 with
  | false => exact fun h => hs ((h x).mp hclosed)
  | true =>
      dsimp only
      rw [ends_tail]
      cases t.ends 1 with
      | false => exact fun h => hs ((h x).mp hclosed)
      | true => exact fun h => by simpa [hs, h₁, h₂] using (h x).mp hx

/-- **A backup** or restore leaves descriptors behind unless it fails in time. -/
theorem backupService_keeps_iff (s : FdTable) (backup : Bool) :
    Keeps s [] (s.backupService backup) ↔ BackupClean s 0 := by
  rw [backupService, BackupClean]
  rcases pipe_cases s with ⟨h₀, s₁, hp, hsame⟩ | ⟨h₀, p, s₁, hp, hP⟩
  · simp [hp, h₀, Keeps, hsame]
  rcases pipe_cases s₁ with ⟨h₁, s₂, hq, hsame⟩ | ⟨h₁, q, s₂, hq, hQ⟩
  · rw [hP.ends] at h₁
    simp only [hp, hq, h₀, h₁, Keeps]
    refine iff_of_false (fun h => hP.fresh_read ?_) (by simp)
    rw [← h p.1, hsame, hP.opens]
    exact .inr (.inl rfl)
  rw [hP.ends] at h₁
  rcases pipe_cases s₂ with ⟨h₂, s₃, hr, hsame⟩ | ⟨h₂, r, s₃, hr, hR⟩
  · rw [hQ.ends, hP.ends] at h₂
    simp only [hp, hq, hr, h₀, h₂, Keeps]
    refine iff_of_false (fun h => hP.fresh_read ?_) (by simp)
    rw [← h p.1, hsame, hQ.opens, hP.opens]
    exact .inl (.inr (.inl rfl))
  rw [hQ.ends, hP.ends] at h₂
  have hends (i : Nat) : s₃.ends i = s.ends (i + 3) := by rw [hR.ends, hQ.ends, hP.ends]
  -- all descriptors of the three pipes are closed
  have hall (n : Nat) (t : FdTable) (ht : t.Open n ↔ s₃.Open n) :
      (((t.closePipe p).closePipe q).closePipe r).Open n ↔ s.Open n := by
    rw [open_closePipe, open_closePipe, open_closePipe, ht, ← hP.closed n, ← hQ.closed n,
      ← hR.closed n]
    constructor
    · rintro ⟨⟨⟨hn, hp⟩, hq⟩, hr⟩
      exact ⟨⟨⟨hn, hr⟩, hq⟩, hp⟩
    · rintro ⟨⟨⟨hn, hr⟩, hq⟩, hp⟩
      exact ⟨⟨⟨hn, hp⟩, hq⟩, hr⟩
  have hargs : s₃.ends 0 = s.ends 3 := hends 0
  have hfork : ({ s₃ with calls := s₃.calls.tail } : FdTable).ends 0 = s.ends 4 := by
    rw [ends_tail, hends]
  simp only [hp, hq, hr, call_eq s₃, hargs]
  cases h₃ : s.ends 3 with
  | false =>
      exact iff_of_true (fun n => hall n _ (open_calls ..)) fun _ =>
        ⟨h₁, h₂, fun h => absurd h Bool.false_ne_true⟩
  | true =>
  dsimp only
  rw [call_eq, hfork]
  cases h₄ : s.ends 4 with
  | false => exact iff_of_true (fun n => hall n _ Iff.rfl) fun _ => ⟨h₁, h₂, fun _ => rfl⟩
  | true =>
  -- the process has been made: one end of `dummy` stays open, however it goes on
  refine iff_of_false ?_ fun hclean => by cases (hclean h₀).2.2 rfl
  have hp₂ (n : Nat) (hn : n = p.1 ∨ n = p.2) : s₂.Open n :=
    (hQ.opens n).mpr (.inl ((hP.opens n).mpr (.inr hn)))
  have hq₂ (n : Nat) (hn : n = q.1 ∨ n = q.2) : s₂.Open n := (hQ.opens n).mpr (.inr hn)
  have hs₂ (n : Nat) (hn : s.Open n) : s₂.Open n :=
    (hQ.opens n).mpr (.inl ((hP.opens n).mpr (.inl hn)))
  have hread := (hR.opens r.1).mpr (.inr (.inl rfl))
  have hwrite := (hR.opens r.2).mpr (.inr (.inr rfl))
  have hne (n : Nat) (hn : s₂.Open n) : r.1 ≠ n ∧ r.2 ≠ n :=
    ⟨(hR.ne_of_open hn).1.symm, (hR.ne_of_open hn).2.symm⟩
  cases backup with
  | true =>
      refine not_keeps_rest (x := r.1) ?_ (fun hn => hR.fresh_read (hs₂ _ hn))
        (hne _ (hp₂ _ (.inl rfl))).1 hR.ne
      simp only [if_true, open_closePipe, open_close]
      exact ⟨⟨hread, (hne _ (hp₂ _ (.inr rfl))).1⟩, (hne _ (hq₂ _ (.inl rfl))).1,
        (hne _ (hq₂ _ (.inr rfl))).1⟩
  | false =>
      refine not_keeps_rest (x := r.2) ?_ (fun hn => hR.fresh_write (hs₂ _ hn)) hR.ne.symm
        (hne _ (hq₂ _ (.inr rfl))).2
      simp only [Bool.false_eq_true, if_false, open_closePipe, open_close]
      exact ⟨⟨hwrite, (hne _ (hq₂ _ (.inl rfl))).2⟩, (hne _ (hp₂ _ (.inl rfl))).2,
        (hne _ (hp₂ _ (.inr rfl))).2⟩

/-- One new descriptor for both directions is open, if there is one, and nothing else. -/
def KeepsOne (s : FdTable) (r : Option Nat × FdTable) : Prop :=
  match r.1 with
  | none => ∀ n, r.2.Open n ↔ s.Open n
  | some fd => ¬s.Open fd ∧ ∀ n, r.2.Open n ↔ s.Open n ∨ n = fd

theorem KeepsOne.keeps {r : Option Nat × FdTable} (h : KeepsOne s r) :
    Keeps s [] (single r) := by
  obtain ⟨fd | fd, s'⟩ := r
  · exact h
  · intro n
    rw [show (single (some fd, s')).2.Open n ↔ s.Open n ∨ n = fd from h.2 n]
    simp

theorem openFd_keepsOne (s : FdTable) (a : Access) : KeepsOne s (s.openFd a) := by
  rw [openFd, call_eq]
  cases s.ends 0 with
  | false => exact fun n => Iff.rfl
  | true =>
      refine ⟨not_open_add { s with calls := s.calls.tail } a, fun n => ?_⟩
      exact (open_add _ a n).trans or_comm

/-- What was new and is closed again leaves no trace. -/
theorem KeepsOne.close {fd : Nat} {s₁ : FdTable} (h : KeepsOne s (some fd, s₁)) (n : Nat) :
    (s₁.close fd).Open n ↔ s.Open n := by
  rw [open_close, show s₁.Open n ↔ s.Open n ∨ n = fd from h.2 n]
  constructor
  · rintro ⟨hn | hn, hne⟩
    · exact hn
    · exact absurd hn hne
  · exact fun hn => ⟨.inl hn, fun heq => h.1 (heq ▸ hn)⟩

/-- Whatever fails in pipe mode, only the output of the process stays open. -/
theorem createSubprocessPipe_keepsOne (s : FdTable) : KeepsOne s s.createSubprocessPipe := by
  rw [createSubprocessPipe]
  rcases pipe_cases s with ⟨h₀, s₁, hp, hsame⟩ | ⟨h₀, p, s₁, hp, hP⟩
  · rw [hp]
    exact hsame
  rcases pipe_cases s₁ with ⟨h₁, s₂, hq, hsame⟩ | ⟨h₁, q, s₂, hq, hQ⟩
  · simp only [hp, hq]
    intro n
    rw [open_closePipe, hsame, hP.closed]
  simp only [hp, hq, call_eq]
  cases s₂.ends 0 with
  | false =>
      intro n
      rw [open_closePipe, open_closePipe, open_calls, and_right_comm, hQ.closed, hP.closed]
  | true =>
      refine ⟨fun hn => hQ.fresh_read ((hP.opens _).mpr (.inl hn)), fun n => ?_⟩
      have hold := hP.ne_of_open (n := n)
      have hnew := hQ.ne_of_open (n := n)
      have hopen := hP.opens n
      have hout : n = q.1 → n ≠ p.1 ∧ n ≠ p.2 ∧ n ≠ q.2 := by
        rintro rfl
        have hp₁ := hQ.ne_of_open ((hP.opens p.1).mpr (.inr (.inl rfl)))
        have hp₂ := hQ.ne_of_open ((hP.opens p.2).mpr (.inr (.inr rfl)))
        exact ⟨hp₁.1.symm, hp₂.1.symm, hQ.ne⟩
      simp only [open_closePipe, open_close, open_calls, hQ.opens]
      tauto

/-- Nor in PTY mode. -/
theorem createSubprocessPty_keepsOne (s : FdTable) : KeepsOne s s.createSubprocessPty := by
  have hkeeps := openFd_keepsOne s .both
  rw [createSubprocessPty]
  rcases hopen : s.openFd .both with ⟨fd | fd, s₁⟩
  · rw [hopen] at hkeeps
    exact hkeeps
  · rw [hopen] at hkeeps
    simp only [call_eq]
    cases s₁.ends 0 with
    | false => exact fun n => hkeeps.close n
    | true =>
        dsimp only
        rw [ends_tail]
        cases s₁.ends 1 with
        | false => exact fun n => hkeeps.close n
        | true => exact hkeeps

theorem createSubprocess_keepsOne (b : Build) (s : FdTable) :
    KeepsOne s (s.createSubprocess b) := by
  rw [createSubprocess]
  split
  · exact createSubprocessPipe_keepsOne s
  · exact createSubprocessPty_keepsOne s

/-- A shell without its waiter is closed. -/
theorem createSubprocThread_keepsOne (b : Build) (s : FdTable) :
    KeepsOne s (s.createSubprocThread b) := by
  have hkeeps := createSubprocess_keepsOne b s
  rw [createSubprocThread]
  rcases hret : s.createSubprocess b with ⟨ret, s₁⟩
  rw [hret] at hkeeps
  dsimp only
  rw [call_eq]
  cases s₁.ends 0 with
  | true => exact hkeeps
  | false =>
      cases ret with
      | none => exact hkeeps
      | some fd => exact fun n => hkeeps.close n

/-- The descriptors of a debugger's connection. -/
theorem createJdwpConnectionFd_keeps (s : FdTable) (pid : Int) :
    Keeps s s.outFd (single (s.createJdwpConnectionFd pid)) := by
  have hnone {t : FdTable} (h : ∀ n, t.Open n ↔ s.Open n) :
      Keeps s s.outFd (single (none, t)) := h
  rw [createJdwpConnectionFd]
  split
  · exact hnone fun n => Iff.rfl
  split
  · exact hnone fun n => Iff.rfl
  rcases pipe_cases s with ⟨h₀, s₁, hp, hsame⟩ | ⟨h₀, p, s₁, hp, hP⟩
  · rw [hp]
    exact hnone hsame
  · rw [outFd, hp]
    intro n
    change s₁.Open n ↔ s.Open n ∨ n = p.1 ∨ n = p.1 ∨ n ∈ [p.2]
    rw [hP.opens, List.mem_singleton]
    tauto

end FdTable

/-! ### The start -/

open FdTable

/-- A start behind a call that succeeds. -/
theorem keeps_behind {s : FdTable} {owned : List Nat} {r : Option (Nat × Nat) × FdTable} :
    Keeps { s with calls := s.calls.tail } owned r ↔ Keeps s owned r := Iff.rfl

/-- A copy of the argument, and then a start. -/
theorem keeps_copied_iff {s : FdTable} {owned : List Nat}
    {start : FdTable → Option (Nat × Nat) × FdTable} {P : Prop}
    (h : Keeps s owned (start { s with calls := s.calls.tail }) ↔ P) :
    Keeps s owned
      (match s.call with
      | (false, s) => (none, s)
      | (true, s) => start s) ↔ (s.ends 0 = true → P) := by
  rw [call_eq]
  cases s.ends 0 with
  | false => exact iff_of_true (fun n => Iff.rfl) nofun
  | true => exact h.trans ⟨fun hp _ => hp, fun hp => hp rfl⟩

/-- **When a start leaves nothing behind.** -/
theorem start_keeps_iff (b : Build) (s : FdTable) (name : List UInt8) :
    StartKeeps b s name ↔ CleanStart b s name := by
  have hsame (owned : List Nat) : Keeps s owned (none, s) := fun n => Iff.rfl
  let s₁ : FdTable := { s with calls := s.calls.tail }
  rw [StartKeeps, CleanStart, handedOver, serviceToFd]
  cases hsvc : serviceOf b s.recovery name with
  | none => exact iff_of_true (hsame _) trivial
  | some p =>
  obtain ⟨text, svc⟩ := p
  cases svc with
  | tcp =>
      refine iff_of_true ?_ trivial
      dsimp only
      split
      · exact hsame _
      · exact (openFd_keepsOne s .both).keeps
  | opened => exact iff_of_true (openFd_keepsOne s .both).keeps trivial
  | thread => exact createServiceThread_keeps_iff s
  | threadArg =>
      have hthread : Keeps s s₁.stinfo s₁.createServiceThread ↔ ThreadClean s 1 := by
        rw [← keeps_behind, createServiceThread_keeps_iff]
        simp only [ThreadClean, ends_tail]
      rw [show s.call.2 = s₁ by rw [call_eq]]
      exact keeps_copied_iff hthread
  | jdwp => exact iff_of_true (createJdwpConnectionFd_keeps s _) trivial
  | shell => exact iff_of_true (createSubprocThread_keepsOne b s).keeps trivial
  | backup =>
      have hbackup : Keeps s [] (s₁.backupService true) ↔ BackupClean s 1 := by
        rw [← keeps_behind, backupService_keeps_iff]
        simp only [BackupClean, ends_tail]
      exact keeps_copied_iff hbackup
  | restore => exact backupService_keeps_iff s false

/-- A thread service without its second pipe leaves the first one open; and a backup that
starts keeps an end of a pipe that nobody has. -/
theorem start_keeps_fails :
    (serviceToFd ⟨true, true⟩ ⟨[], [true, false], [], false⟩ (ascii "sync:".toList)).1 = none ∧
      ¬StartKeeps ⟨true, true⟩ ⟨[], [true, false], [], false⟩ (ascii "sync:".toList) ∧
      (serviceToFd ⟨true, true⟩ ⟨[], [], [], false⟩ (ascii "backup:".toList)).1 = some (0, 5) ∧
      ¬StartKeeps ⟨true, true⟩ ⟨[], [], [], false⟩ (ascii "backup:".toList) := by
  refine ⟨by decide +kernel, fun h => ?_, by decide +kernel, fun h => ?_⟩
  · have hopen : FdTable.Open ⟨[], [true, false], [], false⟩ 0 := (h 0).mp (by decide +kernel)
    exact absurd hopen (by decide)
  · have hopen := (h 4).mp (by decide +kernel)
    exact absurd hopen (by decide +kernel)

end Adbd
