import Adbd.LocalQueue
import Adbd.ShellExit
import Adbd.FileSync

/-!
# The Descriptors of a Service

`service_to_fd` gives a stream two descriptors: the output of the service is read from the
first, and what the host sends is written to the second. A socket, a device or a terminal is
one descriptor for both. A service thread has two pipes, and a backup three, of which one
only stands for the direction that is not used.

Two services are given one end of one pipe for both directions, the end that is read. In
pipe mode `create_subprocess` returns the output of the child, and its comment says that
what the caller writes there goes to void; and `create_jdwp_connection_fd` takes one end of
what `adb_socketpair` made, which here is a pipe. A write there fails with `EBADF`, and
`local_socket_enqueue` closes the stream.

How a call of the system ends is up to the system. The child of a `fork` or `vfork` has
descriptors of its own.

## Main definitions

* `Access`, `FdTable`: the open descriptors.
* `Build`: the switches of the build.
* `FdTable.createServiceThread`, `FdTable.createSubprocess`, `FdTable.createSubprocThread`,
  `FdTable.createJdwpConnectionFd`, `FdTable.backupService`: the ways to get descriptors.
* `services`, `serviceToFd`: the services.
* `OneWay`: the services with one end of one pipe.

## Main results

* `service_iff_starts`: a service is told by its prefix, in any order of the tests.
* `service_fds_iff`: a stream works in both directions exactly if its service is not one of
  these.
-/

namespace Adbd

open CString

/-! ### Descriptors -/

/-- What a descriptor is open for. -/
inductive Access
  | read
  | write
  | both
deriving DecidableEq, Repr

/-- The open descriptors, how the next calls that may fail will end, the processes that wait
for a debugger with the number of descriptors not yet sent to them, and `recovery_mode`. -/
structure FdTable where
  fds : List (Nat × Access)
  calls : List Bool := []
  jdwp : List (Int × Nat) := []
  recovery : Bool := false
deriving DecidableEq, Repr

namespace FdTable

/-- What a number is open for. -/
def access (s : FdTable) (n : Nat) : Option Access := s.fds.lookup n

/-- How the next call ends. -/
def call (s : FdTable) : Bool × FdTable :=
  match s.calls with
  | [] => (true, s)
  | c :: cs => (c, { s with calls := cs })

/-- A descriptor is opened, under the lowest number that is free. -/
def add (s : FdTable) (a : Access) : Nat × FdTable :=
  (lowestFree (s.fds.map Prod.fst),
    { s with fds := (lowestFree (s.fds.map Prod.fst), a) :: s.fds })

/-- `adb_close`. -/
def close (s : FdTable) (n : Nat) : FdTable := { s with fds := s.fds.filter fun f => f.1 ≠ n }

/-- A call that opens a descriptor. -/
def openFd (s : FdTable) (a : Access) : Option Nat × FdTable :=
  match s.call with
  | (false, s) => (none, s)
  | (true, s) => (some (s.add a).1, (s.add a).2)

/-- `pipe`, and `adb_socketpair`: the end that is read, and the end that is written. -/
def pipe (s : FdTable) : Option (Nat × Nat) × FdTable :=
  match s.call with
  | (false, s) => (none, s)
  | (true, s) =>
      let r := s.add .read
      let w := r.2.add .write
      (some (r.1, w.1), w.2)

def closePipe (s : FdTable) (p : Nat × Nat) : FdTable := (s.close p.1).close p.2

/-- `adb_write` on a descriptor: what the other end makes of it, or `EBADF`. -/
def adbWrites (s : FdTable) (n : Nat) (ws : List WriteRes) : List WriteRes :=
  match s.access n with
  | some .write | some .both => ws
  | _ => [.error]

def Readable (s : FdTable) (n : Nat) : Prop :=
  s.access n = some .read ∨ s.access n = some .both

def Writable (s : FdTable) (n : Nat) : Prop :=
  s.access n = some .write ∨ s.access n = some .both

end FdTable

/-! ### Services -/

/-- The switches of the build: `HAVE_VFORKEXEC`, without which `HAVE_FORKEXEC` is set, and
`ADBD_NO_PTY`. -/
structure Build where
  vforkexec : Bool
  noPty : Bool
deriving DecidableEq, Repr

/-- Whether `create_subprocess` uses pipes. -/
def Build.pipeMode (b : Build) : Bool := b.vforkexec || b.noPty

/-- The descriptors each process may have waiting. -/
def MAX_OUT_FDS : Nat := 4

namespace FdTable

/-- `create_service_thread`. -/
def createServiceThread (s : FdTable) : Option (Nat × Nat) × FdTable :=
  match s.pipe with
  | (none, s) => (none, s)
  | (some svcToFw, s) =>
      match s.pipe with
      | (none, s) => (none, s)
      | (some fwToSvc, s) =>
          match s.call with
          | (false, s) => (none, (s.closePipe svcToFw).closePipe fwToSvc)
          | (true, s) => (some (svcToFw.1, fwToSvc.2), s)

/-- `create_subprocess` in pipe mode. -/
def createSubprocessPipe (s : FdTable) : Option Nat × FdTable :=
  match s.pipe with
  | (none, s) => (none, s)
  | (some pipeStdin, s) =>
      match s.pipe with
      | (none, s) => (none, s.closePipe pipeStdin)
      | (some pipeStdout, s) =>
          match s.call with
          | (false, s) => (none, (s.closePipe pipeStdin).closePipe pipeStdout)
          | (true, s) => (some pipeStdout.1, (s.closePipe pipeStdin).close pipeStdout.2)

/-- `create_subprocess` in PTY mode: `/dev/ptmx` is opened, the terminal made ready, and the
process forked. -/
def createSubprocessPty (s : FdTable) : Option Nat × FdTable :=
  match s.openFd .both with
  | (none, s) => (none, s)
  | (some ptm, s) =>
      match s.call with
      | (false, s) => (none, s.close ptm)
      | (true, s) =>
          match s.call with
          | (false, s) => (none, s.close ptm)
          | (true, s) => (some ptm, s)

/-- `create_subprocess`. -/
def createSubprocess (b : Build) (s : FdTable) : Option Nat × FdTable :=
  if b.pipeMode then s.createSubprocessPipe else s.createSubprocessPty

/-- `create_subproc_thread`. The waiter is started for a failed process, too. -/
def createSubprocThread (b : Build) (s : FdTable) : Option Nat × FdTable :=
  match s.createSubprocess b with
  | (ret, s) =>
      match s.call with
      | (false, s) => (none, ret.elim s s.close)
      | (true, s) => (ret, s)

/-- `create_jdwp_connection_fd`: the process gets the end that is written. -/
def createJdwpConnectionFd (s : FdTable) (pid : Int) : Option Nat × FdTable :=
  match s.jdwp.findIdx? (fun proc => proc.1 = pid) with
  | none => (none, s)
  | some i =>
      if MAX_OUT_FDS ≤ (s.jdwp.getD i (0, 0)).2 then (none, s)
      else
        match s.pipe with
        | (none, s) => (none, s)
        | (some fds, s) =>
            (some fds.1, { s with jdwp := s.jdwp.modify i fun proc => (proc.1, proc.2 + 1) })

/-- `backup_service`, for a backup or else a restore. -/
def backupService (backup : Bool) (s : FdTable) : Option (Nat × Nat) × FdTable :=
  match s.pipe with
  | (none, s) => (none, s)
  | (some up, s) =>
      match s.pipe with
      | (none, s) => (none, s)
      | (some down, s) =>
          match s.pipe with
          | (none, s) => (none, s)
          | (some dummy, s) =>
              let all s :=
                FdTable.closePipe (FdTable.closePipe (FdTable.closePipe s up) down) dummy
              match s.call with -- `bu_args`
              | (false, s) => (none, all s)
              | (true, s) =>
                  match s.call with -- `fork` or `vfork`
                  | (false, s) => (none, all s)
                  | (true, s) =>
                      let parent := if backup then up.1 else dummy.1
                      let other := if backup then dummy.2 else down.2
                      let s :=
                        if backup then (s.close up.2).closePipe down
                        else (s.close down.1).closePipe up
                      match s.call with -- `params`
                      | (false, s) => (none, s.closePipe (parent, other))
                      | (true, s) =>
                          match s.call with -- `adb_thread_create`
                          | (false, s) => (none, s.closePipe (parent, other))
                          | (true, s) => (some (parent, other), s)

end FdTable

/-- How a service gets its descriptors. -/
inductive Service
  /-- `socket_loopback_client`, unless a host is named -/
  | tcp
  /-- `socket_local_client`, or `unix_open` with `O_RDWR` -/
  | opened
  /-- `create_service_thread` -/
  | thread
  /-- the same with a copy of the argument -/
  | threadArg
  | jdwp
  | shell
  | backup
  | restore
deriving DecidableEq, Repr

/-- The test for one service. -/
def serviceTest (text : String) (svc : Service) : List UInt8 × Service :=
  (ascii text.toList, svc)

/-- The tests of `service_to_fd`, in their order. -/
def services (b : Build) (recovery : Bool) : List (List UInt8 × Service) :=
  [serviceTest "tcp:" .tcp, serviceTest "local:" .opened, serviceTest "localreserved:" .opened,
    serviceTest "localabstract:" .opened, serviceTest "localfilesystem:" .opened,
    serviceTest "dev:" .opened, serviceTest "framebuffer:" .thread] ++
  (if recovery then [serviceTest "recover:" .thread] else []) ++
  (if b.noPty then [] else [serviceTest "jdwp:" .jdwp]) ++
  [serviceTest "log:" .thread, serviceTest "shell:" .shell, serviceTest "sync:" .thread,
    serviceTest "remount:" .thread, serviceTest "reboot:" .threadArg,
    serviceTest "backup:" .backup,
    serviceTest "restore:" .restore, serviceTest "tcpip:" .thread, serviceTest "usb:" .thread]

/-- The service of a name, with its prefix. -/
def serviceOf (b : Build) (recovery : Bool) (name : List UInt8) :
    Option (List UInt8 × Service) :=
  (services b recovery).find? fun p => p.1.isPrefixOf name

/-- `atoi`, without its overflow. -/
def atoi (bs : List UInt8) : Int :=
  let bs := bs.dropWhile fun b => b = 32 ∨ 9 ≤ b ∧ b ≤ 13
  if bs.head? = some 45 then -digits 10 bs.tail
  else digits 10 (if bs.head? = some 43 then bs.tail else bs)

/-- One descriptor for both directions. -/
def single (r : Option Nat × FdTable) : Option (Nat × Nat) × FdTable :=
  (r.1.map fun fd => (fd, fd), r.2)

/-- `service_to_fd`: `out_fds`, unless the result is negative. -/
def serviceToFd (b : Build) (s : FdTable) (name : List UInt8) : Option (Nat × Nat) × FdTable :=
  match serviceOf b s.recovery name with
  | none => (none, s)
  | some (_, .tcp) => if 58 ∈ name.drop 4 then (none, s) else single (s.openFd .both)
  | some (_, .opened) => single (s.openFd .both)
  | some (_, .thread) => s.createServiceThread
  | some (_, .threadArg) =>
      match s.call with
      | (false, s) => (none, s)
      | (true, s) => s.createServiceThread
  | some (_, .jdwp) => single (s.createJdwpConnectionFd (atoi (name.drop 5)))
  | some (_, .shell) => single (s.createSubprocThread b)
  | some (_, .backup) =>
      match s.call with
      | (false, s) => (none, s)
      | (true, s) => s.backupService true
  | some (_, .restore) => s.backupService false

/-- **The services that have one end of one pipe**: a shell in pipe mode, and a debugger's
connection in every build that has it. -/
def OneWay (b : Build) (name : List UInt8) : Prop :=
  b.pipeMode = true ∧ ascii "shell:".toList <+: name ∨ b.noPty = false ∧
  ascii "jdwp:".toList <+: name

instance (b : Build) (name : List UInt8) : Decidable (OneWay b name) :=
  inferInstanceAs (Decidable (_ ∨ _))

/-! ### Which service it is -/

/-- No prefix is the start of another. -/
theorem services_incomparable (b : Build) (recovery : Bool) :
    ∀ p ∈ services b recovery, ∀ q ∈ services b recovery, p.1 <+: q.1 → p = q := by
  obtain ⟨v, n⟩ := b
  revert v n recovery
  decide +kernel

theorem serviceOf_starts {b : Build} {recovery : Bool} {name : List UInt8}
    {p : List UInt8 × Service} (h : serviceOf b recovery name = some p) : p.1 <+: name := by
  have hfound := List.find?_some (p := fun p : List UInt8 × Service => p.1.isPrefixOf name) h
  exact List.isPrefixOf_iff_prefix.mp hfound

/-- **A service is told by its prefix**: the order of the tests does not matter. -/
theorem service_iff_starts {b : Build} {recovery : Bool} {name : List UInt8}
    {p : List UInt8 × Service} :
    serviceOf b recovery name = some p ↔ p ∈ services b recovery ∧ p.1 <+: name := by
  constructor
  · intro h
    exact ⟨List.mem_of_find?_eq_some h, serviceOf_starts h⟩
  · rintro ⟨hp, hpre⟩
    cases hq : serviceOf b recovery name with
    | none =>
        have := List.find?_eq_none.mp hq p hp
        exact absurd ( List.isPrefixOf_iff_prefix.mpr hpre) this
    | some q =>
        have hqm := List.mem_of_find?_eq_some hq
        rcases List.prefix_or_prefix_of_prefix hpre (serviceOf_starts hq) with h | h
        · rw [services_incomparable b recovery p hp q hqm h]
        · rw [services_incomparable b recovery q hqm p hp h]

/-- The two services that may be one-way, and when there are these. -/
theorem services_kinds (b : Build) (recovery : Bool) :
    (ascii "shell:".toList, .shell) ∈ services b recovery ∧
      (b.noPty = false → (ascii "jdwp:".toList, .jdwp) ∈ services b recovery) ∧
      ∀ p ∈ services b recovery, (p.2 = .shell → p.1 = ascii "shell:".toList) ∧
        (p.2 = .jdwp → p.1 = ascii "jdwp:".toList ∧ b.noPty = false) := by
  obtain ⟨v, n⟩ := b
  revert v n recovery
  decide +kernel

/-- Whether a service is one-way is told by how it gets its descriptors. -/
theorem oneWay_iff {b : Build} {recovery : Bool} {name : List UInt8} {p : List UInt8 × Service}
    (h : serviceOf b recovery name = some p) :
    OneWay b name ↔ b.pipeMode = true ∧ p.2 = .shell ∨ p.2 = .jdwp := by
  obtain ⟨hshell, hjdwp, hkinds⟩ := services_kinds b recovery
  obtain ⟨hmem, hpre⟩ := service_iff_starts.mp h
  constructor
  · rintro (⟨hpipe, hname⟩ | ⟨hpty, hname⟩)
    · have heq := h.symm.trans (service_iff_starts.mpr ⟨hshell, hname⟩)
      exact .inl ⟨hpipe, by rw [Option.some.inj heq]⟩
    · have heq := h.symm.trans (service_iff_starts.mpr ⟨hjdwp hpty, hname⟩)
      exact .inr (by rw [Option.some.inj heq])
  · rintro (⟨hpipe, hkind⟩ | hkind)
    · exact .inl ⟨hpipe, (hkinds p hmem).1 hkind ▸ hpre⟩
    · obtain ⟨hstart, hpty⟩ := (hkinds p hmem).2 hkind
      exact .inr ⟨hpty, hstart ▸ hpre⟩

/-! ### What the descriptors are open for -/

namespace FdTable

variable {s s' : FdTable}

@[simp] theorem call_fds (s : FdTable) : s.call.2.fds = s.fds := by
  unfold call
  split <;> rfl

/-- A call that opens nothing keeps what is open. -/
theorem call_access {r : Bool} (h : s.call = (r, s')) : s'.access = s.access := by
  funext n
  have hfds := call_fds s
  rw [h] at hfds
  rw [access, access, ← hfds]

/-- A new descriptor has a free number. -/
theorem access_add_free (s : FdTable) (a : Access) : s.access (s.add a).1 = none := by
  rw [add, access, List.lookup_eq_none_iff]
  intro p hp
  have hmem : p.1 ∈ s.fds.map Prod.fst := List.mem_map_of_mem hp
  have hne : lowestFree (s.fds.map Prod.fst) ≠ p.1 :=
    fun heq => lowestFree_notMem (s.fds.map Prod.fst) (heq ▸ hmem)
  simpa using hne

theorem access_add (s : FdTable) (a : Access) (n : Nat) :
    (s.add a).2.access n = if n = (s.add a).1 then some a else s.access n := by
  rw [add, access, List.lookup_cons]
  split <;> rename_i h
  · simp [beq_iff_eq.mp h]
  · rw [if_neg (by simpa using h)]
    rfl

theorem access_close_of_ne {m n : Nat} (h : n ≠ m) : (s.close m).access n = s.access n := by
  rw [access, access, close]
  dsimp only
  induction s.fds with
  | nil => rfl
  | cons f fds ih =>
      by_cases hf : f.1 = m
      · rw [List.filter_cons_of_neg (by simpa using hf), ih, List.lookup_cons,
          beq_eq_false_iff_ne.mpr (by omega)]
      · rw [List.filter_cons_of_pos (by simpa using hf), List.lookup_cons, List.lookup_cons,
          ih]

theorem access_closePipe_of_ne {p : Nat × Nat} {n : Nat} (h₁ : n ≠ p.1) (h₂ : n ≠ p.2) :
    (s.closePipe p).access n = s.access n := by
  rw [closePipe, access_close_of_ne h₂, access_close_of_ne h₁]

/-- What is open and what is not have different numbers. -/
theorem ne_of_access {m n : Nat} {a : Access} (hn : s.access n = some a)
    (hm : s.access m = none) : n ≠ m := by
  rintro rfl
  rw [hm] at hn
  cases hn

theorem add_keeps (a : Access) {n : Nat} {c : Access} (hn : s.access n = some c) :
    (s.add a).2.access n = some c := by
  rw [access_add, if_neg (ne_of_access hn (access_add_free s a)), hn]

/-- A descriptor is opened. -/
theorem openFd_spec {a : Access} {n : Nat} (h : s.openFd a = (some n, s')) :
    s'.access n = some a := by
  rw [openFd] at h
  split at h
  · cases h
  · cases h
    rw [access_add, if_pos rfl]

/-- A new pipe: its ends have free numbers, and the other descriptors stay. -/
structure NewPipe (s s' : FdTable) (p : Nat × Nat) : Prop where
  readEnd : s'.access p.1 = some .read
  writeEnd : s'.access p.2 = some .write
  free_read : s.access p.1 = none
  free_write : s.access p.2 = none
  keeps : ∀ {n a}, s.access n = some a → s'.access n = some a

theorem NewPipe.ne {p : Nat × Nat} (h : NewPipe s s' p) : p.1 ≠ p.2 := by
  intro heq
  have hr := h.readEnd
  rw [heq, h.writeEnd] at hr
  cases hr

theorem pipe_spec {p : Nat × Nat} (h : s.pipe = (some p, s')) : NewPipe s s' p := by
  rw [pipe] at h
  split at h
  · cases h
  · rename_i s₁ hcall
    have hacc := call_access hcall
    have hread : (s₁.add .read).2.access (s₁.add .read).1 = some .read := by
      rw [access_add, if_pos rfl]
    have hfree := access_add_free (s₁.add .read).2 .write
    have hne := ne_of_access hread hfree
    cases h
    refine ⟨add_keeps .write hread, by rw [access_add, if_pos rfl], ?_, ?_, ?_⟩
    · rw [← hacc]
      exact access_add_free s₁ .read
    · rw [access_add, if_neg hne.symm, hacc] at hfree
      exact hfree
    · intro n a hn
      rw [← hacc] at hn
      exact add_keeps .write (add_keeps .read hn)

/-- The descriptors of a service thread. -/
theorem createServiceThread_spec {out : Nat × Nat}
    (h : s.createServiceThread = (some out, s')) :
    s'.access out.1 = some .read ∧ s'.access out.2 = some .write := by
  rw [createServiceThread] at h
  split at h
  · cases h
  · rename_i hp₁
    split at h
    · cases h
    · rename_i hp₂
      have hfirst := pipe_spec hp₁
      have hsecond := pipe_spec hp₂
      split at h
      · cases h
      · rename_i hcall
        cases h
        rw [call_access hcall]
        exact ⟨hsecond.keeps hfirst.readEnd, hsecond.writeEnd⟩

/-- In pipe mode a process has the end that is read. -/
theorem createSubprocessPipe_spec {fd : Nat} (h : s.createSubprocessPipe = (some fd, s')) :
    s'.access fd = some .read := by
  rw [createSubprocessPipe] at h
  split at h
  · cases h
  · rename_i hp₁
    split at h
    · cases h
    · rename_i hp₂
      have hstdin := pipe_spec hp₁
      have hstdout := pipe_spec hp₂
      split at h
      · cases h
      · rename_i hcall
        cases h
        have hne₁ := (ne_of_access hstdin.readEnd hstdout.free_read).symm
        have hne₂ := (ne_of_access hstdin.writeEnd hstdout.free_read).symm
        rw [access_close_of_ne hstdout.ne, access_closePipe_of_ne hne₁ hne₂, call_access hcall]
        exact hstdout.readEnd

/-- In PTY mode it has the terminal. -/
theorem createSubprocessPty_spec {fd : Nat} (h : s.createSubprocessPty = (some fd, s')) :
    s'.access fd = some .both := by
  rw [createSubprocessPty] at h
  split at h
  · cases h
  · rename_i hopen
    split at h
    · cases h
    · rename_i hcall₁
      split at h
      · cases h
      · rename_i hcall₂
        cases h
        rw [call_access hcall₂, call_access hcall₁]
        exact openFd_spec hopen

/-- The descriptor of a shell. -/
theorem createSubprocThread_spec {b : Build} {fd : Nat}
    (h : s.createSubprocThread b = (some fd, s')) :
    s'.access fd = some (if b.pipeMode then .read else .both) := by
  rw [createSubprocThread] at h
  split at h
  rename_i ret s₁ hproc
  split at h
  · cases h
  · rename_i hcall
    cases h
    rw [call_access hcall]
    rw [createSubprocess] at hproc
    split at hproc <;> rename_i hmode
    · rw [if_pos hmode]
      exact createSubprocessPipe_spec hproc
    · rw [if_neg hmode]
      exact createSubprocessPty_spec hproc

/-- A connection of a debugger has the end that is read. -/
theorem createJdwpConnectionFd_spec {pid : Int} {fd : Nat}
    (h : s.createJdwpConnectionFd pid = (some fd, s')) : s'.access fd = some .read := by
  rw [createJdwpConnectionFd] at h
  split at h
  · cases h
  · split at h
    · cases h
    · split at h
      · cases h
      · rename_i hp
        cases h
        exact (pipe_spec hp).readEnd

/-- The descriptors of a backup or restore. -/
theorem backupService_spec {backup : Bool} {out : Nat × Nat}
    (h : s.backupService backup = (some out, s')) :
    s'.access out.1 = some .read ∧ s'.access out.2 = some .write := by
  rw [backupService] at h
  split at h
  · cases h
  rename_i up s₁ hp₁
  split at h
  · cases h
  rename_i down s₂ hp₂
  split at h
  · cases h
  rename_i dummy s₃ hp₃
  have hup := pipe_spec hp₁
  have hdown := pipe_spec hp₂
  have hdummy := pipe_spec hp₃
  dsimp only at h
  split at h
  · cases h
  rename_i hargs
  split at h
  · cases h
  rename_i hfork
  split at h
  · cases h
  rename_i hparams
  split at h
  · cases h
  rename_i hthread
  cases h
  have hacc := (call_access hfork).trans (call_access hargs)
  rw [call_access hthread, call_access hparams]
  cases backup with
  | true =>
      have hread := hdummy.keeps (hdown.keeps hup.readEnd)
      have hne₁ := ne_of_access hup.readEnd hdown.free_read
      have hne₂ := ne_of_access hup.readEnd hdown.free_write
      have hne₃ := (ne_of_access (hdown.keeps hup.writeEnd) hdummy.free_write).symm
      have hne₄ := (ne_of_access hdown.readEnd hdummy.free_write).symm
      have hne₅ := (ne_of_access hdown.writeEnd hdummy.free_write).symm
      simp only [if_true]
      rw [access_closePipe_of_ne hne₁ hne₂, access_close_of_ne hup.ne,
        access_closePipe_of_ne hne₄ hne₅, access_close_of_ne hne₃, hacc]
      exact ⟨hread, hdummy.writeEnd⟩
  | false =>
      have hwrite := hdummy.keeps hdown.writeEnd
      have hne₁ := (ne_of_access (hdown.keeps hup.readEnd) hdummy.free_read).symm
      have hne₂ := (ne_of_access (hdown.keeps hup.writeEnd) hdummy.free_read).symm
      have hne₃ := (ne_of_access hdown.readEnd hdummy.free_read).symm
      have hne₄ := (ne_of_access hup.readEnd hdown.free_write).symm
      have hne₅ := (ne_of_access hup.writeEnd hdown.free_write).symm
      simp only [Bool.false_eq_true, if_false]
      rw [access_closePipe_of_ne hne₁ hne₂, access_close_of_ne hne₃,
        access_closePipe_of_ne hne₄ hne₅, access_close_of_ne hdown.ne.symm, hacc]
      exact ⟨hdummy.readEnd, hwrite⟩

end FdTable

/-! ### Streams -/

/-- One descriptor for both directions is what it is open for. -/
theorem single_spec {r : Option Nat × FdTable} {out : Nat × Nat} {s' : FdTable}
    (h : single r = (some out, s')) : r = (some out.1, s') ∧ out.2 = out.1 := by
  obtain ⟨fd | fd, s⟩ := r
  · cases h
  · cases h
    exact ⟨rfl, rfl⟩

/-- A descriptor that is open for both. -/
theorem FdTable.both_ways {s : FdTable} {n : Nat} (h : s.access n = some .both) :
    s.Readable n ∧ s.Writable n :=
  ⟨.inr h, .inr h⟩

/-- A descriptor that is only read. -/
theorem FdTable.read_only {s : FdTable} {n : Nat} (h : s.access n = some .read) :
    s.Readable n ∧ ¬s.Writable n := by
  refine ⟨.inl h, ?_⟩
  rintro (hw | hw)
  · rw [h] at hw
    cases hw
  · rw [h] at hw
    cases hw

/-- **What the descriptors of a stream are open for.** -/
theorem serviceToFd_spec {b : Build} {s s' : FdTable} {name : List UInt8} {out : Nat × Nat}
    (h : serviceToFd b s name = (some out, s')) :
    s'.Readable out.1 ∧ (s'.Writable out.2 ↔ ¬OneWay b name) := by
  -- the services other than the shell and the debugger's have a descriptor for each direction
  have htwo : ∀ {r : Bool}, s'.Readable out.1 ∧ s'.Writable out.2 → ∀ {svc : Service},
      svc ≠ .shell → svc ≠ .jdwp →
      s'.Readable out.1 ∧ (s'.Writable out.2 ↔ ¬(r = true ∧ svc = .shell ∨ svc = .jdwp)) :=
    fun h _ h₁ h₂ => ⟨h.1, by simp [h₁, h₂, h.2]⟩
  have hopen : ∀ {s₀ : FdTable}, single (s₀.openFd .both) = (some out, s') →
      s'.Readable out.1 ∧ s'.Writable out.2 := by
    intro s₀ h
    obtain ⟨hopen, hout⟩ := single_spec h
    rw [hout]
    exact FdTable.both_ways (FdTable.openFd_spec hopen)
  have hthread : ∀ {s₀ : FdTable}, s₀.createServiceThread = (some out, s') →
      s'.Readable out.1 ∧ s'.Writable out.2 := by
    intro s₀ h
    obtain ⟨hr, hw⟩ := FdTable.createServiceThread_spec h
    exact ⟨.inl hr, .inl hw⟩
  have hbackup : ∀ {s₀ : FdTable} {backup : Bool}, s₀.backupService backup = (some out, s') →
      s'.Readable out.1 ∧ s'.Writable out.2 := by
    intro s₀ backup h
    obtain ⟨hr, hw⟩ := FdTable.backupService_spec h
    exact ⟨.inl hr, .inl hw⟩
  rw [serviceToFd] at h
  cases hsvc : serviceOf b s.recovery name with
  | none =>
      rw [hsvc] at h
      cases h
  | some p =>
      rw [oneWay_iff hsvc]
      rw [hsvc] at h
      obtain ⟨pre, svc⟩ := p
      cases svc with
      | tcp =>
          dsimp only at h
          split at h
          · cases h
          · exact htwo (hopen h) nofun nofun
      | opened => exact htwo (hopen h) nofun nofun
      | thread => exact htwo (hthread h) nofun nofun
      | threadArg =>
          dsimp only at h
          split at h
          · cases h
          · exact htwo (hthread h) nofun nofun
      | backup =>
          dsimp only at h
          split at h
          · cases h
          · exact htwo (hbackup h) nofun nofun
      | restore => exact htwo (hbackup h) nofun nofun
      | jdwp =>
          obtain ⟨hfd, hout⟩ := single_spec h
          obtain ⟨hr, hw⟩ := FdTable.read_only (FdTable.createJdwpConnectionFd_spec hfd)
          exact ⟨hr, by simp [hout, hw]⟩
      | shell =>
          obtain ⟨hfd, hout⟩ := single_spec h
          have hacc := FdTable.createSubprocThread_spec hfd
          cases hmode : b.pipeMode with
          | true =>
              rw [hmode, if_pos rfl] at hacc
              obtain ⟨hr, hw⟩ := FdTable.read_only hacc
              exact ⟨hr, by simp [hout, hw]⟩
          | false =>
              rw [hmode, if_neg (by simp)] at hacc
              obtain ⟨hr, hw⟩ := FdTable.both_ways hacc
              exact ⟨hr, by simp [hout, hw]⟩

/-- `adb_write` on a descriptor that is open for writing is up to the other end. -/
theorem FdTable.Writable.adbWrites {s : FdTable} {n : Nat} (h : s.Writable n)
    (ws : List WriteRes) :
    s.adbWrites n ws = ws := by
  rcases h with h | h <;> rw [FdTable.adbWrites, h]

/-- **A stream works in both directions exactly if its service is not one-way**: its first
descriptor is open for reading and the second for writing, so that what `local_socket_enqueue`
does with a `WRTE` of the host is up to the other end of the second, and no `EBADF`. -/
theorem service_fds_iff (b : Build) (s : FdTable) (name : List UInt8) (out : Nat × Nat)
    (h : (serviceToFd b s name).1 = some out) :
    ((serviceToFd b s name).2.Readable out.1 ∧ (serviceToFd b s name).2.Writable out.2 ∧
        ∀ (q : QSocket) (p : Nat) (ws : List WriteRes),
          q.localSocketEnqueue p ((serviceToFd b s name).2.adbWrites out.2 ws) =
            q.localSocketEnqueue p ws) ↔
      ¬OneWay b name := by
  obtain ⟨hr, hw⟩ := serviceToFd_spec (Prod.ext h rfl : serviceToFd b s name = (some out, _))
  constructor
  · rintro ⟨-, hwrite, -⟩
    exact hw.mp hwrite
  · intro hone
    have hwrite := hw.mpr hone
    exact ⟨hr, hwrite, fun q p ws => by rw [hwrite.adbWrites]⟩

/-- A daemon with its standard descriptors open. -/
def bareTable : FdTable := { fds := [(2, .both), (1, .both), (0, .both)] }

/-- The name of a shell that runs a command. -/
def shellLs : List UInt8 := ascii "shell:ls".toList

theorem service_fds_pty_shell :
    (serviceToFd ⟨false, false⟩ bareTable shellLs).2.Readable 3 ∧
      (serviceToFd ⟨false, false⟩ bareTable shellLs).2.Writable 3 ∧
      ∀ (q : QSocket) (p : Nat) (ws : List WriteRes),
        q.localSocketEnqueue p
          ((serviceToFd ⟨false, false⟩ bareTable shellLs).2.adbWrites 3 ws) =
          q.localSocketEnqueue p ws :=
  (service_fds_iff ⟨false, false⟩ bareTable shellLs (3, 3) (by decide +kernel)).mpr
    (by decide +kernel)

/-- **Input for a shell in pipe mode closes its stream**: the shell has one descriptor, which
is only read, and `local_socket_enqueue` of a line destroys the socket, where the void would
have taken it. -/
theorem pipe_shell_input_closes :
    (serviceToFd ⟨true, true⟩ bareTable shellLs).1 = some (5, 5) ∧
      (serviceToFd ⟨true, true⟩ bareTable shellLs).2.access 5 = some .read ∧
      ((QSocket.create.getApacket [10]).2.localSocketEnqueue 0
          ((serviceToFd ⟨true, true⟩ bareTable shellLs).2.adbWrites 5 [.wrote 1])).map
        (fun r => (r.1, r.2.gone)) = some (1, true) ∧
      ((QSocket.create.getApacket [10]).2.localSocketEnqueue 0 [.wrote 1]).map
        (fun r => (r.1, r.2.gone)) = some (0, false) := by
  decide +kernel

end Adbd
