import Mathlib.Data.List.Perm.Subperm
import Adbd.Framebuffer

/-!
# The Clean-Up of the Service Threads

`log_service` forwards the entries of a log device until a read fails. It never closes the
device, and if there is none it jumps over the initialiser of `buf` to a clean-up that frees
`buf`. `framebuffer_service` jumps to its clean-up in the same way, without memory or without a
pipe.

A service that runs on never reaches its clean-up.

## Main definitions

* `logService`: the service.
* `CleansUpOwn`: a clean-up uses only variables that were assigned, frees and waits for no more
  than what the service owns, and closes all that it owns.

## Main results

* `framebuffer_cleansUp_iff`, `log_cleansUp_iff`: when the two services do.
* `services_cleanUp_iff`: both.
-/

namespace Adbd

/-! ### The log service -/

def LOGGER_ENTRY_MAX_LEN : Nat := 5 * 1024

/-- How a read of the log device comes out: an entry, which is empty at the end of the file, an
interrupted call, or an error. -/
inductive LogRead
  | got (bs : List UInt8)
  | eintr
  | eagain
  | error
deriving DecidableEq, Repr

/-- The read ends the service. -/
def LogRead.ends : LogRead → Bool
  | .got bs => bs.isEmpty
  | .eintr | .eagain => false
  | .error => true

/-- `entry->len`, at the start of the buffer. -/
def entryLen (buf : List UInt8) : Nat := (buf.getD 0 0).toNat + 256 * (buf.getD 1 0).toNat

/-- `sizeof(struct logger_entry)`. -/
def loggerEntrySize : Nat := 20

/-- The variable the clean-up uses, as far as it was assigned. -/
structure LogVars where
  buf : Option (Option Nat) := none

/-- The label `done`. -/
def logDone (rfd wfd path : Nat) (v : LogVars) : ServiceEnd :=
  match v.buf with
  | some buf => .cleaned { freed := buf.toList ++ [path], waited := [], closed := [wfd, rfd] }
  | none => .unassigned

/-- What the loop wrote, and whether it ended. -/
structure LogLoop where
  out : List UInt8
  ended : Bool
deriving DecidableEq, Repr

/-- `write_log_entry`, which does not look at the result of the write. -/
def writeLogEntry (cs : List Call) (buf : List UInt8) : Put :=
  writex cs (buf.take (loggerEntrySize + entryLen buf))

/-- The loop over the entries: one is read into the buffer, terminated, and written. Behind the
last read the service waits for another. -/
def logLoop : List LogRead → List Call → List UInt8 → List UInt8 → LogLoop
  | [], _, _, out => { out := out, ended := false }
  | .eintr :: rs, cs, buf, out | .eagain :: rs, cs, buf, out => logLoop rs cs buf out
  | .error :: _, _, _, out | .got [] :: _, _, _, out => { out := out, ended := true }
  | .got (b :: bs) :: rs, cs, buf, out =>
      let bs := (b :: bs).take LOGGER_ENTRY_MAX_LEN
      let buf := bs ++ buf.drop bs.length
      let buf := buf.set (loggerEntrySize + entryLen buf) 0
      let r := writeLogEntry cs buf
      logLoop rs r.left buf (out ++ r.bytes)

/-- What the service is given and what the system answers: its descriptors, the name of the
device, which the service is to free, the results of `open` and `malloc`, what the memory
holds, and the reads and writes. -/
structure LogEnv where
  rfd : Nat
  wfd : Nat
  path : Nat
  logfd : Option Nat
  buf : Option Nat
  stale : List UInt8
  reads : List LogRead
  wcalls : List Call

/-- `log_service`. The first `goto` jumps over the declaration of `buf`. -/
def logService (env : LogEnv) : ServiceResult :=
  let own : Owned := { memory := [env.path] }
  match env.logfd with
  | none => ⟨[], logDone env.rfd env.wfd env.path {}, own⟩
  | some logfd =>
      let own := { own with fds := [logfd] }
      let v : LogVars := { buf := some env.buf }
      match env.buf with
      | none => ⟨[], logDone env.rfd env.wfd env.path v, own⟩
      | some buf =>
          let own := { own with memory := [buf, env.path] }
          let r := logLoop env.reads env.wcalls env.stale []
          if r.ended then ⟨r.out, logDone env.rfd env.wfd env.path v, own⟩
          else ⟨r.out, .waits, own⟩

/-! ### The clean-up -/

/-- **A service cleans up what it owns**, if it reaches its clean-up: that uses no variable
that was never assigned, frees and waits for no more than what the service owns, and closes its
two descriptors and those it opened. -/
def CleansUpOwn (rfd wfd : Nat) (r : ServiceResult) : Prop :=
  r.ending = .waits ∨ ∃ c, r.ending = .cleaned c ∧ c.freed.Subperm r.owned.memory ∧
    c.waited.Subperm r.owned.children ∧ c.closed.Perm (rfd :: wfd :: r.owned.fds)

/-- **The framebuffer service** cleans up what it owns exactly if it got its memory and its
pipe. -/
theorem framebuffer_cleansUp_iff (o : ByteOrder) (env : FbEnv) :
    CleansUpOwn env.rfd env.wfd (framebufferService o env) ↔
      env.buf.isSome = true ∧ env.fds.isSome = true := by
  have hperm (fds : Nat × Nat) :
      [fds.1, fds.2, env.rfd, env.wfd].Perm (env.rfd :: env.wfd :: [fds.1, fds.2]) :=
    @List.perm_append_comm _ [fds.1, fds.2] [env.rfd, env.wfd]
  cases hb : env.buf with
  | none => simp [framebufferService, hb, framebufferDone, CleansUpOwn]
  | some buf =>
      cases hf : env.fds with
      | none => simp [framebufferService, hb, hf, framebufferDone, CleansUpOwn]
      | some fds =>
          refine iff_of_true ?_ ⟨rfl, rfl⟩
          cases hc : env.child with
          | none =>
              refine .inr ⟨⟨[buf], [], [fds.1, fds.2, env.rfd, env.wfd]⟩, ?_, ?_⟩
              · simp [framebufferService, hb, hf, hc, framebufferDone]
              · simpa [framebufferService, hb, hf, hc] using hperm fds
          | some n =>
              have hpid : (0 : Int) < n + 1 := by omega
              cases hio : env.io.forward o with
              | waits s => exact .inl (by simp [framebufferService, hb, hf, hc, hio])
              | next a s | done s =>
                  refine .inr
                    ⟨⟨[buf], [(n : Int) + 1], [fds.1, fds.2, env.rfd, env.wfd]⟩, ?_, ?_⟩
                  · simp [framebufferService, hb, hf, hc, hio, framebufferDone, hpid]
                  · simpa [framebufferService, hb, hf, hc, hio] using hperm fds

/-- The loop ends exactly if a read ends it. -/
theorem logLoop_ended (rs : List LogRead) (cs : List Call) (buf out : List UInt8) :
    (logLoop rs cs buf out).ended = true ↔ ∃ r ∈ rs, r.ends = true := by
  induction rs generalizing cs buf out with
  | nil => simp [logLoop]
  | cons r rs ih =>
      cases r with
      | got bs => cases bs <;> simp [logLoop, LogRead.ends, ih]
      | eintr => simp [logLoop, LogRead.ends, ih]
      | eagain => simp [logLoop, LogRead.ends, ih]
      | error => simp [logLoop, LogRead.ends]

/-- **The log service** cleans up what it owns exactly if it never reaches its clean-up: it
opened the device, and got its memory, and no read ends it. -/
theorem log_cleansUp_iff (env : LogEnv) :
    CleansUpOwn env.rfd env.wfd (logService env) ↔
      env.logfd.isSome = true ∧ env.buf.isSome = true ∧ ∀ r ∈ env.reads, r.ends = false := by
  have hopen (fd : Nat) : ¬[env.wfd, env.rfd].Perm (env.rfd :: env.wfd :: [fd]) := fun h =>
    absurd h.length_eq (by simp)
  cases hl : env.logfd with
  | none => simp [logService, hl, logDone, CleansUpOwn]
  | some logfd =>
      cases hb : env.buf with
      | none => simp [logService, hl, hb, logDone, CleansUpOwn, hopen]
      | some buf =>
          have hended := logLoop_ended env.reads env.wcalls env.stale []
          by_cases he : (logLoop env.reads env.wcalls env.stale []).ended = true
          · obtain ⟨r, hr, hends⟩ := hended.mp he
            refine iff_of_false ?_ fun h => ?_
            · simp [logService, hl, hb, he, logDone, CleansUpOwn, hopen]
            · rw [h.2.2 r hr] at hends
              cases hends
          · refine iff_of_true (.inl ?_) ⟨rfl, rfl, fun r hr => ?_⟩
            · simp [logService, hl, hb, he]
            · simpa using fun h => he (hended.mpr ⟨r, hr, h⟩)

/-- **When the service threads clean up what they own.** -/
theorem services_cleanUp_iff (o : ByteOrder) :
    (∀ env, CleansUpOwn env.rfd env.wfd (framebufferService o env) ↔
      env.buf.isSome = true ∧ env.fds.isSome = true) ∧
    (∀ env, CleansUpOwn env.rfd env.wfd (logService env) ↔
      env.logfd.isSome = true ∧ env.buf.isSome = true ∧ ∀ r ∈ env.reads, r.ends = false) :=
  ⟨framebuffer_cleansUp_iff o, log_cleansUp_iff⟩

/-- Without a log device, and without memory for a block of an image, the clean-up uses
variables that were never assigned; and the device stays open when the log ends. -/
theorem services_cleanUp_fails :
    (logService ⟨3, 4, 4096, none, none, [], [], []⟩).ending = .unassigned ∧
      ¬CleansUpOwn 3 4 (logService ⟨3, 4, 4096, none, none, [], [], []⟩) ∧
      (framebufferService .little ⟨3, 4, none, none, none, ⟨[], true, [], [], []⟩⟩).ending =
        .unassigned ∧
      ¬CleansUpOwn 3 4
        (framebufferService .little ⟨3, 4, none, none, none, ⟨[], true, [], [], []⟩⟩) ∧
      ¬CleansUpOwn 3 4 (logService ⟨3, 4, 4096, some 5, some 8192, [], [.got []], []⟩) := by
  refine ⟨rfl, ?_, rfl, ?_, ?_⟩
  · rintro (h | ⟨c, h, -⟩) <;> cases h
  · rintro (h | ⟨c, h, -⟩) <;> cases h
  · rintro (h | ⟨c, h, -, -, hc⟩)
    · cases h
    · cases h
      exact absurd hc.length_eq (by decide)

end Adbd
