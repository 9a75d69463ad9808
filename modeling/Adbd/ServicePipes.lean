import Adbd.Prog
import Adbd.Packet

/-!
# The Main Loop and a Service Thread

A service started by `create_service_thread` talks to the main loop through two pipes,
which are the two ends of a local socket made by `create_local_socket_pair`. The pipe the
service writes is read by the main loop when the host has asked for more; `fdevent_install`
makes it non-blocking. The pipe the service reads is written by `local_socket_enqueue`,
whose loop is made to stop at `EAGAIN` and queue the rest; but this descriptor was left in
blocking mode, so that the main loop waits in `adb_write` until the service has made room.

Pipes are bounded queues of bytes, of which only the fill level matters here. The service
reads and writes as it likes, in blocking mode. The host keeps one `WRTE` unacknowledged
and acknowledges the daemon's when it likes.

## Main definitions

* `Duplex`, `DuplexAct`, `Duplex.step`: the two pipes and the three parties.
* `Deadlock`: both threads wait for each other.
* `FitsRoom`: a payload is written only when there is room for all of it.

## Main results

* `Duplex.step_cases`: what a step does.
* `Duplex.NeverFull.step`: with `FitsRoom`, the main loop always has room for its rest.
* `service_deadlock_exact`: runs with `FitsRoom` do not deadlock, and from every state in
  which a payload does not fit a deadlock is reached.
-/

namespace Adbd

/-- The capacities of the pipe the service reads and of the pipe it writes. -/
structure Caps where
  input : Nat
  output : Nat
deriving DecidableEq, Repr

/-- Where the main loop stands: at its `select`, or in `adb_write` on the service's pipe
with `rest` bytes to go. -/
inductive MainPc
  | idle
  | writing (rest : Nat)
deriving DecidableEq, Repr

/-- Where the service stands: in code of its own, or in a write to its output pipe with
`rest` bytes to go, or finished. -/
inductive SvcPc
  | free
  | writing (rest : Nat)
  | quit
deriving DecidableEq, Repr

/-- The fill levels of the pipes, the threads, the payload of the host that the main loop has
yet to handle, whether a `WRTE` of the host is unacknowledged, and whether the main loop
watches the socket for `FDE_READ`, as it does until it has sent a `WRTE` and again when the
host has acknowledged it. -/
structure Duplex where
  inFill : Nat := 0
  outFill : Nat := 0
  main : MainPc := .idle
  svc : SvcPc := .free
  inbox : Option Nat := none
  unacked : Bool := false
  credit : Bool := true
deriving DecidableEq, Repr

/-- What happens next. -/
inductive DuplexAct
  /-- the host sends a `WRTE` with a payload of this length -/
  | hostWrte (n : Nat)
  /-- the host acknowledges the daemon's `WRTE` -/
  | hostOkay
  /-- the main loop handles the host's `WRTE`: `local_socket_enqueue` -/
  | enqueue
  /-- `adb_write` of the main loop moves bytes into the pipe -/
  | mainWrites (k : Nat)
  /-- `local_socket_event_func` reads bytes of the service and sends them to the host -/
  | mainReads (k : Nat)
  /-- the service reads -/
  | svcReads (k : Nat)
  /-- the service starts to write a reply -/
  | svcReplies (n : Nat)
  /-- a write of the service moves bytes into the pipe -/
  | svcWrites (k : Nat)
  /-- the service closes its descriptors -/
  | svcQuits
deriving DecidableEq, Repr

/-- The free room of the pipe the service reads. -/
def Duplex.room (d : Duplex) (cap : Caps) : Nat := cap.input - d.inFill

/-- The main loop after a write that left `rest` bytes: when all is written the packet is
acknowledged. -/
def Duplex.wrote (d : Duplex) (rest : Nat) : Duplex :=
  if rest = 0 then { d with main := .idle, unacked := false }
    else { d with main := .writing rest }

/-- The service after a write that left `rest` bytes. -/
def SvcPc.wrote (rest : Nat) : SvcPc := if rest = 0 then .free else .writing rest

/-- One step. A write that finds no room blocks; when the service has closed its end, the
write of the main loop fails. -/
def Duplex.step (cap : Caps) (d : Duplex) : DuplexAct → Except Unit Duplex
  | .hostWrte n =>
      if d.unacked = false ∧ 0 < n ∧ n ≤ MAX_PAYLOAD then
        .ok { d with inbox := some n, unacked := true }
      else .error ()
  | .hostOkay =>
      if d.main = .idle ∧ d.credit = false then .ok { d with credit := true } else .error ()
  | .enqueue =>
      match d.main, d.inbox with
      | .idle, some n => .ok { d with main := .writing n, inbox := none }
      | _, _ => .error ()
  | .mainWrites k =>
      match d.main with
      | .writing rest =>
          if d.svc = .quit then .ok { d with main := .idle }
          else if 0 < k ∧ k ≤ rest ∧ k ≤ d.room cap then
            .ok ({ d with inFill := d.inFill + k }.wrote (rest - k))
          else .error ()
      | .idle => .error ()
  | .mainReads k =>
      if d.main = .idle ∧ d.credit = true ∧ 0 < k ∧ k ≤ d.outFill ∧ k ≤ MAX_PAYLOAD then
        .ok { d with outFill := d.outFill - k, credit := false }
      else .error ()
  | .svcReads k =>
      if d.svc = .free ∧ 0 < k ∧ k ≤ d.inFill then .ok { d with inFill := d.inFill - k }
      else .error ()
  | .svcReplies n =>
      if d.svc = .free ∧ 0 < n then .ok { d with svc := .writing n } else .error ()
  | .svcWrites k =>
      match d.svc with
      | .writing rest =>
          if 0 < k ∧ k ≤ rest ∧ k ≤ cap.output - d.outFill then
            .ok { d with outFill := d.outFill + k, svc := .wrote (rest - k) }
          else .error ()
      | _ => .error ()
  | .svcQuits => if d.svc = .free then .ok { d with svc := .quit } else .error ()

/-- The main loop is blocked in `adb_write` on the pipe of the service while the service is
blocked writing to its output pipe. -/
def Deadlock (cap : Caps) (d : Duplex) : Prop :=
  (∃ rest, d.main = .writing rest ∧ 0 < rest ∧ d.room cap = 0) ∧
    ∃ rest, d.svc = .writing rest ∧ 0 < rest ∧ cap.output ≤ d.outFill

/-- The host's payload is handed to `adb_write` only when the pipe has room for all of it. -/
def FitsRoom (cap : Caps) (d : Duplex) (a : DuplexAct) : Prop :=
  a = .enqueue → ∀ n, d.inbox = some n → n ≤ d.room cap

instance (cap : Caps) (d : Duplex) (a : DuplexAct) : Decidable (FitsRoom cap d a) :=
  inferInstanceAs (Decidable (a = .enqueue → ∀ n, d.inbox = some n → n ≤ d.room cap))

/-- The states reached by steps that satisfy a condition. -/
def DuplexRuns (cap : Caps) (ok : Duplex → DuplexAct → Prop) (d d' : Duplex) : Prop :=
  Trans.Runs (Duplex.step cap) ok d d'

section Runs

variable {cap : Caps} {d d' : Duplex} {a : DuplexAct}

/-! ### What a step does -/

/-- **What a step does**, and when it is possible. -/
inductive Duplex.Stepped (cap : Caps) (d : Duplex) : DuplexAct → Duplex → Prop
  | hostWrte {n : Nat} (hun : d.unacked = false) (hpos : 0 < n) (hmax : n ≤ MAX_PAYLOAD) :
      d.Stepped cap (.hostWrte n) { d with inbox := some n, unacked := true }
  | hostOkay (hmain : d.main = .idle) (hcredit : d.credit = false) :
      d.Stepped cap .hostOkay { d with credit := true }
  | enqueue {n : Nat} (hmain : d.main = .idle) (hn : d.inbox = some n) :
      d.Stepped cap .enqueue { d with main := .writing n, inbox := none }
  | mainFails {k rest : Nat} (hmain : d.main = .writing rest) (hquit : d.svc = .quit) :
      d.Stepped cap (.mainWrites k) { d with main := .idle }
  | mainWrites {k rest : Nat} (hmain : d.main = .writing rest) (hlive : d.svc ≠ .quit)
      (hpos : 0 < k) (hle : k ≤ rest) (hroom : k ≤ d.room cap) :
      d.Stepped cap (.mainWrites k) ({ d with inFill := d.inFill + k }.wrote (rest - k))
  | mainReads {k : Nat} (hmain : d.main = .idle) (hcredit : d.credit = true) (hpos : 0 < k)
      (hle : k ≤ d.outFill) (hmax : k ≤ MAX_PAYLOAD) :
      d.Stepped cap (.mainReads k) { d with outFill := d.outFill - k, credit := false }
  | svcReads {k : Nat} (hfree : d.svc = .free) (hpos : 0 < k) (hle : k ≤ d.inFill) :
      d.Stepped cap (.svcReads k) { d with inFill := d.inFill - k }
  | svcReplies {n : Nat} (hfree : d.svc = .free) (hpos : 0 < n) :
      d.Stepped cap (.svcReplies n) { d with svc := .writing n }
  | svcWrites {k rest : Nat} (hsvc : d.svc = .writing rest) (hpos : 0 < k) (hle : k ≤ rest)
      (hroom : k ≤ cap.output - d.outFill) :
      d.Stepped cap (.svcWrites k)
        { d with outFill := d.outFill + k, svc := .wrote (rest - k) }
  | svcQuits (hfree : d.svc = .free) : d.Stepped cap .svcQuits { d with svc := .quit }

/-- **Step cases.** The steps are looked at here only. -/
theorem Duplex.step_cases (hs : d.step cap a = .ok d') : d.Stepped cap a d' := by
  cases a with
  | hostWrte n =>
      simp only [Duplex.step] at hs
      split at hs
      · next hn =>
        obtain rfl := Except.ok.inj hs
        exact .hostWrte hn.1 hn.2.1 hn.2.2
      · cases hs
  | hostOkay =>
      simp only [Duplex.step] at hs
      split at hs
      · next hm =>
        obtain rfl := Except.ok.inj hs
        exact .hostOkay hm.1 hm.2
      · cases hs
  | enqueue =>
      simp only [Duplex.step] at hs
      split at hs
      · next n hmain hn =>
        obtain rfl := Except.ok.inj hs
        exact .enqueue hmain hn
      · cases hs
  | mainWrites k =>
      simp only [Duplex.step] at hs
      split at hs
      · next rest hmain =>
        split at hs
        · next hquit =>
          obtain rfl := Except.ok.inj hs
          exact .mainFails hmain hquit
        · next hlive =>
          split at hs
          · next hk =>
            obtain rfl := Except.ok.inj hs
            exact .mainWrites hmain hlive hk.1 hk.2.1 hk.2.2
          · cases hs
      · cases hs
  | mainReads k =>
      simp only [Duplex.step] at hs
      split at hs
      · next hk =>
        obtain rfl := Except.ok.inj hs
        exact .mainReads hk.1 hk.2.1 hk.2.2.1 hk.2.2.2.1 hk.2.2.2.2
      · cases hs
  | svcReads k =>
      simp only [Duplex.step] at hs
      split at hs
      · next hk =>
        obtain rfl := Except.ok.inj hs
        exact .svcReads hk.1 hk.2.1 hk.2.2
      · cases hs
  | svcReplies n =>
      simp only [Duplex.step] at hs
      split at hs
      · next hn =>
        obtain rfl := Except.ok.inj hs
        exact .svcReplies hn.1 hn.2
      · cases hs
  | svcWrites k =>
      simp only [Duplex.step] at hs
      split at hs
      · next rest hsvc =>
        split at hs
        · next hk =>
          obtain rfl := Except.ok.inj hs
          exact .svcWrites hsvc hk.1 hk.2.1 hk.2.2
        · cases hs
      · cases hs
  | svcQuits =>
      simp only [Duplex.step] at hs
      split at hs
      · next hfree =>
        obtain rfl := Except.ok.inj hs
        exact .svcQuits hfree
      · cases hs

theorem Duplex.wrote_inbox (d : Duplex) (rest : Nat) : (d.wrote rest).inbox = d.inbox := by
  rw [Duplex.wrote]
  split <;> rfl

theorem Duplex.wrote_svc (d : Duplex) (rest : Nat) : (d.wrote rest).svc = d.svc := by
  rw [Duplex.wrote]
  split <;> rfl

/-! ### Runs in which every payload fits -/

/-- The main loop in `adb_write` has something to write, and there is room for all of it. -/
def Duplex.NeverFull (cap : Caps) (d : Duplex) : Prop :=
  ∀ rest, d.main = .writing rest → 0 < rest ∧ rest ≤ d.room cap

/-- A payload of the host is not empty. -/
def Duplex.InboxPos (d : Duplex) : Prop := ∀ n, d.inbox = some n → 0 < n

theorem Duplex.InboxPos.step (h : d.InboxPos) (hs : d.step cap a = .ok d') : d'.InboxPos := by
  cases Duplex.step_cases hs with
  | hostWrte hun hpos =>
      rintro _ ⟨⟩
      exact hpos
  | enqueue => exact nofun
  | mainWrites =>
      intro n hn
      rw [Duplex.wrote_inbox] at hn
      exact h n hn
  | hostOkay | mainFails | mainReads | svcReads | svcReplies | svcWrites | svcQuits => exact h

/-- **Step lemma.** When a payload is handed over only if it fits, the main loop never runs
out of room: nobody but the main loop fills the pipe. -/
theorem Duplex.NeverFull.step (h : d.NeverFull cap) (hin : d.InboxPos) (ha : FitsRoom cap d a)
    (hs : d.step cap a = .ok d') : d'.NeverFull cap := by
  cases Duplex.step_cases hs with
  | enqueue hmain hn =>
      rintro rest ⟨⟩
      exact ⟨hin _ hn, ha rfl _ hn⟩
  | mainFails => exact nofun
  | @mainWrites k rest hmain =>
      obtain ⟨-, hroom⟩ := h rest hmain
      intro rest' hrest'
      rw [Duplex.wrote] at hrest' ⊢
      simp only [Duplex.room] at hroom
      split at hrest'
      · cases hrest'
      · next hne =>
        cases hrest'
        rw [if_neg hne]
        simp only [Duplex.room]
        omega
  | svcReads =>
      intro rest hrest
      obtain ⟨hpos, hroom⟩ := h rest hrest
      refine ⟨hpos, Nat.le_trans hroom ?_⟩
      simp only [Duplex.room]
      omega
  | hostWrte | hostOkay | mainReads | svcReplies | svcWrites | svcQuits => exact h

theorem Duplex.NeverFull.not_deadlock (h : d.NeverFull cap) : ¬ Deadlock cap d := by
  rintro ⟨⟨rest, hmain, -, hroom⟩, -⟩
  obtain ⟨hpos, hle⟩ := h rest hmain
  omega

/-! ### A payload that does not fit -/

/-- A service that writes has something to write. -/
def Duplex.ReplyPos (d : Duplex) : Prop := ∀ rest, d.svc = .writing rest → 0 < rest

theorem SvcPc.wrote_pos {rest q : Nat} (h : SvcPc.wrote rest = .writing q) : 0 < q := by
  rw [SvcPc.wrote] at h
  split at h
  · cases h
  · next hne =>
    cases h
    exact Nat.pos_of_ne_zero hne

theorem Duplex.ReplyPos.step (h : d.ReplyPos) (hs : d.step cap a = .ok d') : d'.ReplyPos := by
  cases Duplex.step_cases hs with
  | svcReplies hfree hpos =>
      rintro _ ⟨⟩
      exact hpos
  | svcWrites => exact fun _ hq => SvcPc.wrote_pos hq
  | svcQuits => exact nofun
  | mainWrites =>
      intro rest hrest
      rw [Duplex.wrote_svc] at hrest
      exact h rest hrest
  | hostWrte | hostOkay | enqueue | mainFails | mainReads | svcReads => exact h

/-- All runs. -/
abbrev DuplexRuns.Any (cap : Caps) : Duplex → Duplex → Prop := DuplexRuns cap fun _ _ => True

/-- A service that is not writing can start a reply that fills its output pipe. -/
theorem Duplex.reply_blocks (cap : Caps) (hfree : d.svc = .free) :
    ∃ d', DuplexRuns.Any cap d d' ∧ d'.main = d.main ∧ d'.inFill = d.inFill ∧
      ∃ rest, d'.svc = .writing rest ∧ 0 < rest ∧ cap.output ≤ d'.outFill := by
  have hreply : d.step cap (.svcReplies (cap.output - d.outFill + 1)) =
      .ok { d with svc := .writing (cap.output - d.outFill + 1) } := by
    simp [Duplex.step, hfree]
  have hstart : DuplexRuns.Any cap d _ := Trans.Runs.refl.tail trivial hreply
  by_cases hfull : cap.output ≤ d.outFill
  · exact ⟨_, hstart, rfl, rfl, _, rfl, Nat.succ_pos _, hfull⟩
  · have hpush : Duplex.step cap { d with svc := .writing (cap.output - d.outFill + 1) }
        (.svcWrites (cap.output - d.outFill)) =
        .ok { d with outFill := d.outFill + (cap.output - d.outFill), svc := .writing 1 } := by
      have hpos : 0 < cap.output - d.outFill := by omega
      simp [Duplex.step, hpos, SvcPc.wrote]
    exact ⟨_, hstart.tail trivial hpush, rfl, rfl, 1, rfl, Nat.one_pos, by simp; omega⟩

/-- A service that has not finished can come to wait for room in its output pipe. -/
theorem Duplex.svc_blocks (cap : Caps) (hpos : d.ReplyPos) (hquit : d.svc ≠ .quit) :
    ∃ d', DuplexRuns.Any cap d d' ∧ d'.main = d.main ∧ d'.inFill = d.inFill ∧
      ∃ rest, d'.svc = .writing rest ∧ 0 < rest ∧ cap.output ≤ d'.outFill := by
  cases hsvc : d.svc with
  | free => exact Duplex.reply_blocks cap hsvc
  | quit => exact absurd hsvc hquit
  | writing rest =>
      have hrest := hpos rest hsvc
      by_cases hfull : cap.output ≤ d.outFill
      · exact ⟨d, .refl, rfl, rfl, rest, hsvc, hrest, hfull⟩
      · by_cases hle : rest ≤ cap.output - d.outFill
        · -- the reply fits, and the next one is long enough
          have hpush : d.step cap (.svcWrites rest) =
              .ok { d with outFill := d.outFill + rest, svc := .free } := by
            simp [Duplex.step, hsvc, hrest, hle, SvcPc.wrote]
          obtain ⟨d', hrun, hmain, hfill, hblocked⟩ :=
            Duplex.reply_blocks
              (d := { d with outFill := d.outFill + rest, svc := .free }) cap rfl
          exact ⟨d', (Trans.Runs.refl.tail trivial hpush).trans hrun, hmain, hfill, hblocked⟩
        · have hpush : d.step cap (.svcWrites (cap.output - d.outFill)) =
              .ok { d with
                outFill := d.outFill + (cap.output - d.outFill)
                svc := .writing (rest - (cap.output - d.outFill)) } := by
            have hk : 0 < cap.output - d.outFill ∧ cap.output - d.outFill ≤ rest := by omega
            have hne : rest - (cap.output - d.outFill) ≠ 0 := by omega
            simp [Duplex.step, hsvc, hk, SvcPc.wrote, hne]
          refine ⟨_, Trans.Runs.refl.tail trivial hpush, rfl, rfl, _, rfl, ?_, ?_⟩
          · omega
          · simp only
            omega

/-- The main loop handles a payload that does not fit, and waits for room. -/
theorem Duplex.main_blocks {n : Nat} (hmain : d.main = .idle) (hn : d.inbox = some n)
    (hquit : d.svc ≠ .quit) (hroom : d.room cap < n) :
    ∃ d', DuplexRuns.Any cap d d' ∧ d'.svc = d.svc ∧
      ∃ rest, d'.main = .writing rest ∧ 0 < rest ∧ d'.room cap = 0 := by
  have henq : d.step cap .enqueue = .ok { d with main := .writing n, inbox := none } := by
    simp [Duplex.step, hmain, hn]
  have hstart : DuplexRuns.Any cap d _ := Trans.Runs.refl.tail trivial henq
  by_cases hz : d.room cap = 0
  · exact ⟨_, hstart, rfl, n, rfl, by omega, hz⟩
  · have hpush : Duplex.step cap { d with main := .writing n, inbox := none }
        (.mainWrites (d.room cap)) =
        .ok { d with
          main := .writing (n - d.room cap), inbox := none,
            inFill := d.inFill + d.room cap } := by
      have hk : 0 < d.room cap ∧ d.room cap ≤ n := by omega
      have hne : n - d.room cap ≠ 0 := by omega
      simp only [Duplex.room] at hk hne
      simp [Duplex.step, hquit, Duplex.room, hk, Duplex.wrote, hne]
    refine ⟨_, hstart.tail trivial hpush, rfl, _, rfl, ?_, ?_⟩
    · omega
    · simp only [Duplex.room]
      omega

end Runs

/-- **Main loop and service.** In no run in which the main loop hands a payload to
`adb_write` only when it fits into the service's pipe do the two threads wait for each
other; and from every state with a payload that does not fit, while the service has not
finished, they can come to. -/
theorem service_deadlock_exact (cap : Caps) :
    (∀ d, DuplexRuns cap (FitsRoom cap) {} d → ¬ Deadlock cap d) ∧
    ∀ d, DuplexRuns.Any cap {} d → ∀ n, d.main = .idle → d.inbox = some n → d.svc ≠ .quit →
      d.room cap < n → ∃ d', DuplexRuns.Any cap d d' ∧ Deadlock cap d' := by
  constructor
  · intro d h
    have hinv : d.NeverFull cap ∧ d.InboxPos := by
      refine Trans.Runs.invariant (I := fun d => d.NeverFull cap ∧ d.InboxPos) h
        ⟨nofun, nofun⟩ ?_
      rintro x a x' ⟨hfull, hin⟩ ha hs
      exact ⟨hfull.step hin ha hs, hin.step hs⟩
    exact hinv.1.not_deadlock
  · intro d h n hmain hn hquit hroom
    have hpos : d.ReplyPos :=
      Trans.Runs.invariant (I := Duplex.ReplyPos) h nofun fun _ _ _ hx _ hs => hx.step hs
    obtain ⟨d₁, hrun₁, hsvc, rest, hrest, hrpos, hfull⟩ :=
      Duplex.main_blocks hmain hn hquit hroom
    have hpos₁ : d₁.ReplyPos := fun q hq => hpos q (hsvc ▸ hq)
    obtain ⟨d₂, hrun₂, hmain₂, hfill, q, hq, hqpos, hout⟩ :=
      Duplex.svc_blocks cap hpos₁ (hsvc ▸ hquit)
    refine ⟨d₂, hrun₁.trans hrun₂, ⟨rest, hmain₂.trans hrest, hrpos, ?_⟩, q, hq, hqpos, hout⟩
    rw [Duplex.room, hfill]
    exact hfull

/-- The service has read the first payload when the second one comes, so both fit, and a reply
that fills its pipe waits alone. -/
theorem service_deadlock_exact_fits :
    ∃ d, (d.inFill = 4096 ∧ d.main = .idle ∧ d.svc = .writing 5904) ∧
      DuplexRuns ⟨4096, 4096⟩ (FitsRoom ⟨4096, 4096⟩) {} d ∧ ¬Deadlock ⟨4096, 4096⟩ d := by
  have hfollow : (Trans.follow (Duplex.step ⟨4096, 4096⟩)
      (fun d a => FitsRoom ⟨4096, 4096⟩ d a) {}
      [.hostWrte 4096, .enqueue, .mainWrites 4096, .svcReads 4096, .svcReplies 10000,
        .svcWrites 4096, .hostWrte 4096, .enqueue, .mainWrites 4096]).any
      (fun d => d.inFill = 4096 ∧ d.main = .idle ∧ d.svc = .writing 5904) = true := by
    decide +kernel
  obtain ⟨d, hrun, hd⟩ := Trans.exists_runs _ (fun _ _ h => of_decide_eq_true h) hfollow
  exact ⟨d, of_decide_eq_true hd, hrun, (service_deadlock_exact _).1 d hrun⟩

/-- Pipes of 4096 bytes: the service writes a long reply that the host does not take, and a
second `WRTE` of the host finds the service's pipe full. -/
theorem service_deadlocks :
    ∃ d, DuplexRuns.Any ⟨4096, 4096⟩ {} d ∧ Deadlock ⟨4096, 4096⟩ d := by
  have hrun : (Trans.follow (Duplex.step ⟨4096, 4096⟩) (fun _ _ => true) {}
      [.hostWrte 4096, .enqueue, .mainWrites 4096, .svcReplies 10000, .svcWrites 4096,
        .hostWrte 4096, .enqueue]).any (fun d => d.inFill = 4096 ∧ d.outFill = 4096 ∧
          d.main = .writing 4096 ∧ d.svc = .writing 5904) = true := by
    decide +kernel
  obtain ⟨d, hd, hP⟩ := (Option.any_eq_true _ _).mp hrun
  obtain ⟨hin, hout, hmain, hsvc⟩ := of_decide_eq_true hP
  refine ⟨d, Trans.follow_runs hd fun _ _ _ => trivial, ⟨4096, hmain, by decide, ?_⟩,
    5904, hsvc, by decide, Nat.le_of_eq hout.symm⟩
  rw [Duplex.room, hin]
  rfl

end Adbd
