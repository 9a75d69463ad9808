import Adbd.HandlePacket
import Mathlib.Data.List.Perm.Subperm

/-!
# Shell-Exit Notifications

A waiter reports the exit of its shell by writing the shell's descriptor number to
`SHELL_EXIT_NOTIFY_FD`, and `fdevent_subproc_event_func` finds the record to force to its
end by that number in `fd_table`. This module adds to the event loop what decides which
record that is: the table, the numbers the operating system has given out, and the
notifications under way. The shell's socket may be closed before its notification is read,
for instance because its output ended, and the number be given to another socket; the test
`subproc_fde->fd != subproc_fd` of the source cannot see that, as `fd_table[n]->fd` is
always `n`.

Sockets are numbered in the order they are created; the number of a shell's socket also
names its child.

## Main definitions

* `Loop.subprocExit`: what the handler does to the record it found.
* `Descs`, `DescAct`, `Descs.step`: sockets, descriptors and notifications.
* `Descs.Touches`: what the handler did on account of a notification.
* `OnlyOwn`, `NotReused`: the handler touches the shell's own record only; nobody else has
  the shell's number.

## Main results

* `Descs.WF.step`: the table agrees with the records along every run.
* `shell_exit_only_own_iff`: for every run, the two are the same.
-/

namespace Adbd

open Program

/-- What `fdevent_subproc_event_func` does to the record it found: the loop, and the events
with which the callback of the record is made at once, if it is. -/
def Loop.subprocExit {ι : Type} [DecidableEq ι] (l : Loop ι) (k : ι) (rcount : Nat) :
    Loop ι × Option Events :=
  let f := l.fdes k
  let l := l.put k { l.fdes k with forceEof := true }
  if rcount ≠ 0 then (l, none)
  else if f.pending then
    (l.put k { l.fdes k with events := (l.fdes k).events.union .onlyRead }, none)
  else (l.put k { l.fdes k with events := {} }, some (f.events.union .onlyRead))

/-- The handler of the daemon does this to the record of a socket. -/
theorem fdeventSubprocEventFunc_sock {ev : Events} {c : Core} {s : SockId}
    (hev : ev.read = true) (hio : c.io.subproc = some (.sock s))
    (hact : (c.loop.fdes (.sock s)).active = true) :
    fdeventSubprocEventFunc ev c =
      match c.loop.subprocExit (.sock s) c.io.rcount with
      | (l, none) => .ok ((), { c with loop := l })
      | (l, some ev) => localSocketEventFunc s ev { c with loop := l } := by
  have hmod : ∀ (f : Loop FdeId → Loop FdeId) (c : Core),
      modLoop f c = .ok ((), { c with loop := f c.loop }) := fun _ _ => rfl
  have hpure : ∀ c : Core, (StateT.pure () : M Unit) c = .ok ((), c) := fun _ => rfl
  by_cases hr : c.io.rcount = 0
  · by_cases hp : (c.loop.fdes (.sock s)).pending = true
    · simp [fdeventSubprocEventFunc, bind, StateT.bind, Except.bind, get, getThe,
        MonadStateOf.get, StateT.get, pure, Except.pure, hev, hio, hact, hr, hp, hmod,
        Loop.subprocExit]
    · simp [fdeventSubprocEventFunc, bind, StateT.bind, Except.bind, get, getThe,
        MonadStateOf.get, StateT.get, pure, Except.pure, hev, hio, hact, hr, hp, hmod,
        Loop.subprocExit]
  · simp [fdeventSubprocEventFunc, bind, StateT.bind, Except.bind, get, getThe,
      MonadStateOf.get, StateT.get, pure, hpure, Except.pure, hev, hio, hact, hr, hmod,
      Loop.subprocExit]

/-! ### The descriptors -/

/-- How far the child of a shell is. -/
inductive ShellPhase
  | running
  | exited
  | posted
deriving DecidableEq, Repr

/-- The child of a shell and the descriptor number its waiter was given. -/
structure ShellChild where
  rfd : Nat
  phase : ShellPhase := .running
deriving DecidableEq, Repr

/-- What the handler did to a record on account of a notification. -/
inductive Touch
  | forceEof
  | read
deriving DecidableEq, Repr

/-- The records of the sockets, `fd_table`, the numbers of the open descriptors, the
children of the shells, the notifications in the pipe (the number that was written, and
the shell it is about), and what the handler did. Other descriptors, those of transports and
of JDWP processes among them, are numbers in `used`: a record of theirs at a number that is
given out again would be touched as a socket's is. -/
structure Descs where
  loop : Loop SockId
  table : Nat → Option SockId
  used : List Nat
  nextSock : Nat
  child : SockId → Option ShellChild
  pipe : List (Nat × SockId)
  touched : List (SockId × Touch)

/-- No sockets; the descriptors `0`, `1` and `2` are open. -/
def Descs.init : Descs where
  loop := Loop.empty
  table := fun _ => none
  used := [0, 1, 2]
  nextSock := 0
  child := fun _ => none
  pipe := []
  touched := []

/-- The lowest number that is not in use. -/
def lowestFree (used : List Nat) : Nat :=
  ((List.range (used.length + 1)).find? fun n => decide (n ∉ used)).getD used.length

/-- What happens next. -/
inductive DescAct
  /-- a shell is started: its descriptor, its child and waiter, and its socket -/
  | openShell
  /-- a socket for another service is created -/
  | openSocket
  /-- another thread opens a descriptor, or closes one that no socket has -/
  | openOther
  | closeOther (n : Nat)
  /-- a socket is closed, because its stream ended or for any other reason -/
  | closeSocket (x : SockId)
  /-- `select` reports a socket, and its callback is made -/
  | ready (x : SockId) (ev : Events)
  | deliver
  /-- the child of a shell exits, and its waiter writes the notification -/
  | exits (x : SockId)
  | post (x : SockId)
  /-- a notification is read, with the result of `FIONREAD`, and with whether a callback
  closes its socket -/
  | handle (rcount : Nat) (closes : Bool)
deriving DecidableEq, Repr

/-- `fdevent_install` for a new socket on a descriptor the operating system gives out. -/
def Descs.install (d : Descs) : Descs :=
  let n := lowestFree d.used
  { d with
    loop := d.loop.fdeventInstall d.nextSock n
    table := Function.update d.table n (some d.nextSock)
    used := n :: d.used
    nextSock := d.nextSock + 1 }

/-- `fdevent_remove` of a socket: `fdevent_unregister` clears its entry of the table and
closes its descriptor. -/
def Descs.remove (d : Descs) (x : SockId) : Descs :=
  { d with
    loop := d.loop.fdeventRemove x
    table := Function.update d.table (d.loop.fdes x).fd none
    used := d.used.erase (d.loop.fdes x).fd }

/-- `fdevent_subproc_event_func` on the number `n`. -/
def Descs.subprocEvent (d : Descs) (n : Nat) (rcount : Nat) (closes : Bool) : Descs :=
  match d.table n with
  | none => d
  | some k =>
      if (d.loop.fdes k).fd ≠ n then d
      else
        match d.loop.subprocExit k rcount with
        | (l, none) => { d with loop := l, touched := d.touched ++ [(k, .forceEof)] }
        | (l, some _) =>
            let d := { d with loop := l, touched := d.touched ++ [(k, .forceEof), (k, .read)] }
            if closes then d.remove k else d

/-- One step. -/
def Descs.step (d : Descs) : DescAct → Except Unit Descs
  | .openShell =>
      .ok { d.install with
        child := Function.update d.child d.nextSock (some { rfd := lowestFree d.used }) }
  | .openSocket => .ok d.install
  | .openOther => .ok { d with used := lowestFree d.used :: d.used }
  | .closeOther n =>
      if n ∈ d.used ∧ d.table n = none then .ok { d with used := d.used.erase n }
        else .error ()
  | .closeSocket x =>
      if (d.loop.fdes x).active = true then .ok (d.remove x) else .error ()
  | .ready x ev =>
      if (d.loop.fdes x).active = true then .ok { d with loop := d.loop.fdeventReady x ev }
      else .error ()
  | .deliver =>
      match d.loop.fdeventPlistDequeue with
      | some (x, l) => .ok { d with loop := (l.fdeventTake x).2 }
      | none => .error ()
  | .exits x =>
      match d.child x with
      | some c =>
          if c.phase = .running then
            .ok { d with child := Function.update d.child x
                           (some { c with phase := .exited }) }
          else .error ()
      | none => .error ()
  | .post x =>
      match d.child x with
      | some c =>
          if c.phase = .exited then
            .ok { d with
              child := Function.update d.child x (some { c with phase := .posted })
              pipe := d.pipe ++ [(c.rfd, x)] }
          else .error ()
      | none => .error ()
  | .handle rcount closes =>
      match d.pipe with
      | (n, _) :: rest => .ok ({ d with pipe := rest }.subprocEvent n rcount closes)
      | [] => .error ()

/-! ### The table agrees with the records -/

/-- The operating system gives out a number that is not in use. -/
theorem lowestFree_notMem (used : List Nat) : lowestFree used ∉ used := by
  have hex : ∃ n ∈ List.range (used.length + 1), n ∉ used := by
    by_contra hall
    push Not at hall
    have hle := (List.subperm_of_subset List.nodup_range hall).length_le
    rw [List.length_range] at hle
    omega
  rw [lowestFree]
  cases hf : (List.range (used.length + 1)).find? fun n => decide (n ∉ used) with
  | none =>
      obtain ⟨n, hn, hused⟩ := hex
      exact absurd hused (by simpa using List.find?_eq_none.mp hf n hn)
  | some n => simpa using List.find?_some hf

/-- The entries of `fd_table` are the installed records, each at its own number, which is
in use; children and notifications carry the number of their shell's socket. -/
structure Descs.WF (d : Descs) : Prop where
  entry : ∀ n k, d.table n = some k → (d.loop.fdes k).active = true ∧ (d.loop.fdes k).fd = n
  listed : ∀ k, (d.loop.fdes k).active = true →
    d.table (d.loop.fdes k).fd = some k ∧ (d.loop.fdes k).fd ∈ d.used
  fresh : ∀ k, d.nextSock ≤ k → (d.loop.fdes k).active = false
  child : ∀ x c, d.child x = some c → x < d.nextSock ∧ (d.loop.fdes x).fd = c.rfd
  pipe : ∀ p ∈ d.pipe, p.2 < d.nextSock ∧ (d.loop.fdes p.2).fd = p.1

theorem Descs.WF.init : Descs.init.WF where
  entry := nofun
  listed := nofun
  fresh := fun _ _ => rfl
  child := nofun
  pipe := nofun

section Records

variable {l : Loop SockId} {k : SockId}

/-- A change of the records that keeps their numbers and which of them are installed. -/
def SameDescs (l l' : Loop SockId) : Prop :=
  ∀ j, (l'.fdes j).fd = (l.fdes j).fd ∧ (l'.fdes j).active = (l.fdes j).active

theorem SameDescs.put {f : Fdevent} (hfd : f.fd = (l.fdes k).fd)
    (hact : f.active = (l.fdes k).active) : SameDescs l (l.put k f) := by
  intro j
  by_cases hj : j = k
  · subst hj
    simp [hfd, hact]
  · simp [Loop.put_fdes_of_ne _ _ hj]

theorem SameDescs.trans {l₁ l₂ l₃ : Loop SockId} (h : SameDescs l₁ l₂) (h' : SameDescs l₂ l₃) :
    SameDescs l₁ l₃ :=
  fun j => ⟨(h' j).1.trans (h j).1, (h' j).2.trans (h j).2⟩

theorem sameDescs_fdeventReady (l : Loop SockId) (k : SockId) (ev : Events) :
    SameDescs l (l.fdeventReady k ev) := by
  rw [Loop.fdeventReady]
  split
  · exact fun _ => ⟨rfl, rfl⟩
  · split
    · exact SameDescs.put rfl rfl
    · exact SameDescs.put (l := l) (k := k) rfl rfl

theorem sameDescs_fdeventTake (l : Loop SockId) (rest : List SockId) (k : SockId) :
    SameDescs l ({ l with pending := rest }.fdeventTake k).2 := by
  intro j
  by_cases hj : j = k
  · subst hj
    simp [Loop.fdeventTake]
  · simp [Loop.fdeventTake, Loop.put_fdes_of_ne _ _ hj]

theorem sameDescs_subprocExit (l : Loop SockId) (k : SockId) (rcount : Nat) :
    SameDescs l (l.subprocExit k rcount).1 := by
  have hforce : SameDescs l (l.put k { l.fdes k with forceEof := true }) :=
    SameDescs.put rfl rfl
  rw [Loop.subprocExit]
  split
  · exact hforce
  · split
    · exact hforce.trans (SameDescs.put rfl rfl)
    · exact hforce.trans (SameDescs.put rfl rfl)

end Records

/-- The table stays in order when records keep their numbers. -/
theorem Descs.WF.loop {d : Descs} (h : d.WF) {l : Loop SockId} (hl : SameDescs d.loop l)
    (tr : List (SockId × Touch)) : { d with loop := l, touched := tr }.WF where
  entry n k hn := by
    obtain ⟨hact, hfd⟩ := h.entry n k hn
    exact ⟨(hl k).2.trans hact, (hl k).1.trans hfd⟩
  listed k hk := by
    have hold := h.listed k ((hl k).2.symm.trans hk)
    rw [(hl k).1]
    exact hold
  fresh k hk := (hl k).2.trans (h.fresh k hk)
  child x c hx := ⟨(h.child x c hx).1, (hl x).1.trans (h.child x c hx).2⟩
  pipe p hp := ⟨(h.pipe p hp).1, (hl p.2).1.trans (h.pipe p hp).2⟩

/-- A new socket. -/
theorem Descs.WF.install {d : Descs} (h : d.WF) : d.install.WF := by
  have hnew : ∀ k, k ≠ d.nextSock → d.install.loop.fdes k = d.loop.fdes k :=
    fun k hk => Loop.put_fdes_of_ne _ _ hk
  have hself : d.install.loop.fdes d.nextSock = { fd := lowestFree d.used, active := true } :=
    Loop.put_fdes_self ..
  have hfree := lowestFree_notMem d.used
  refine ⟨?_, ?_, ?_, ?_, ?_⟩
  · intro n k hn
    by_cases hne : n = lowestFree d.used
    · subst hne
      obtain rfl : d.nextSock = k := by simpa [Descs.install] using hn
      rw [hself]
      exact ⟨rfl, rfl⟩
    · have hold : d.table n = some k := by simpa [Descs.install, hne] using hn
      have hk : k ≠ d.nextSock := by
        rintro rfl
        have hact := (h.entry n _ hold).1
        rw [h.fresh _ (Nat.le_refl _)] at hact
        cases hact
      rw [hnew k hk]
      exact h.entry n k hold
  · intro k hk
    by_cases hkn : k = d.nextSock
    · subst hkn
      rw [hself]
      simp [Descs.install]
    · rw [hnew k hkn] at hk ⊢
      obtain ⟨htab, hused⟩ := h.listed k hk
      have hne : (d.loop.fdes k).fd ≠ lowestFree d.used := fun heq => hfree (heq ▸ hused)
      simp [Descs.install, hne, htab, hused]
  · intro k hk
    have hk' : d.nextSock + 1 ≤ k := hk
    rw [hnew k (by omega)]
    exact h.fresh k (by omega)
  · intro x c hx
    obtain ⟨hlt, hfd⟩ := h.child x c hx
    rw [hnew x (Nat.ne_of_lt hlt)]
    exact ⟨Nat.lt_succ_of_lt hlt, hfd⟩
  · intro p hp
    obtain ⟨hlt, hfd⟩ := h.pipe p hp
    rw [hnew p.2 (Nat.ne_of_lt hlt)]
    exact ⟨Nat.lt_succ_of_lt hlt, hfd⟩

/-- A socket is closed. -/
theorem Descs.WF.remove {d : Descs} (h : d.WF) {x : SockId}
    (hx : (d.loop.fdes x).active = true) :
    (d.remove x).WF := by
  have hother : ∀ k, k ≠ x → (d.remove x).loop.fdes k = d.loop.fdes k := by
    intro k hk
    rw [Descs.remove, Loop.fdeventRemove]
    split <;> simp [Loop.put_fdes_of_ne _ _ hk]
  have hself : ((d.remove x).loop.fdes x).active = false ∧
      ((d.remove x).loop.fdes x).fd = (d.loop.fdes x).fd := by
    rw [Descs.remove, Loop.fdeventRemove]
    split <;> simp
  have hfd : ∀ k, ((d.remove x).loop.fdes k).fd = (d.loop.fdes k).fd := by
    intro k
    by_cases hk : k = x
    · rw [hk, hself.2]
    · rw [hother k hk]
  refine ⟨?_, ?_, ?_, ?_, ?_⟩
  · intro n k hn
    by_cases hne : n = (d.loop.fdes x).fd
    · simp [Descs.remove, hne] at hn
    · have hold : d.table n = some k := by simpa [Descs.remove, hne] using hn
      have hk : k ≠ x := by
        rintro rfl
        exact hne (h.entry n k hold).2.symm
      rw [hother k hk]
      exact h.entry n k hold
  · intro k hk
    have hkx : k ≠ x := by
      rintro rfl
      rw [hself.1] at hk
      cases hk
    rw [hother k hkx] at hk ⊢
    obtain ⟨htab, hused⟩ := h.listed k hk
    have hne : (d.loop.fdes k).fd ≠ (d.loop.fdes x).fd := by
      intro heq
      have htab' := (h.listed x hx).1
      rw [← heq, htab] at htab'
      exact hkx (Option.some.inj htab')
    exact ⟨by simp [Descs.remove, hne, htab], (List.mem_erase_of_ne hne).mpr hused⟩
  · intro k hk
    by_cases hkx : k = x
    · rw [hkx]
      exact hself.1
    · rw [hother k hkx]
      exact h.fresh k hk
  · intro y c hy
    rw [hfd y]
    exact h.child y c hy
  · intro p hp
    rw [hfd p.2]
    exact h.pipe p hp

/-! ### Handling a notification -/

/-- `fdevent_remove` changes no other record. -/
theorem Descs.remove_fdes_of_ne (d : Descs) {x k : SockId} (hk : k ≠ x) :
    (d.remove x).loop.fdes k = d.loop.fdes k := by
  rw [Descs.remove, Loop.fdeventRemove]
  split <;> simp [Loop.put_fdes_of_ne _ _ hk]

/-- The handler changes no other record than the one it found. -/
theorem subprocExit_fdes_of_ne (l : Loop SockId) {k j : SockId} (rcount : Nat) (hj : j ≠ k) :
    (l.subprocExit k rcount).1.fdes j = l.fdes j := by
  rw [Loop.subprocExit]
  split
  · simp [Loop.put_fdes_of_ne _ _ hj]
  · split <;> simp [Loop.put_fdes_of_ne _ _ hj]

/-- What the handler does for a number whose entry of the table is the record `k`. -/
theorem Descs.subprocEvent_some {d : Descs} (h : d.WF) {n : Nat} {k : SockId}
    (hn : d.table n = some k) (rcount : Nat) (closes : Bool) :
    (∀ y, y ≠ k → (d.subprocEvent n rcount closes).loop.fdes y = d.loop.fdes y) ∧
      (d.subprocEvent n rcount closes).pipe = d.pipe ∧
      (∃ more, (∀ e ∈ more, e.1 = k) ∧
        (d.subprocEvent n rcount closes).touched = d.touched ++ (k, .forceEof) :: more) ∧
      (d.subprocEvent n rcount closes).WF := by
  obtain ⟨hact, hfd⟩ := h.entry n k hn
  have hl := sameDescs_subprocExit d.loop k rcount
  have hframe : ∀ y, y ≠ k → (d.loop.subprocExit k rcount).1.fdes y = d.loop.fdes y :=
    fun y hy => subprocExit_fdes_of_ne d.loop rcount hy
  cases hx : d.loop.subprocExit k rcount with
  | mk l call =>
      rw [hx] at hl hframe
      cases call with
      | none =>
          have heq : d.subprocEvent n rcount closes =
              { d with loop := l, touched := d.touched ++ [(k, .forceEof)] } := by
            simp [Descs.subprocEvent, hn, hfd, hx]
          rw [heq]
          exact ⟨hframe, rfl, ⟨[], nofun, rfl⟩, h.loop hl _⟩
      | some ev =>
          have hwf := h.loop hl (d.touched ++ [(k, .forceEof), (k, .read)])
          have hmore : ∀ e ∈ [(k, Touch.read)], e.1 = k := by simp
          cases closes with
          | false =>
              have heq : d.subprocEvent n rcount false =
                  { d with loop := l, touched := d.touched ++
                             [(k, .forceEof), (k, .read)] } := by
                simp [Descs.subprocEvent, hn, hfd, hx]
              rw [heq]
              exact ⟨hframe, rfl, ⟨_, hmore, rfl⟩, hwf⟩
          | true =>
              have heq : d.subprocEvent n rcount true =
                  { d with
                    loop := l
                    touched := d.touched ++
                      [(k, Touch.forceEof), (k, Touch.read)] }.remove k := by
                simp [Descs.subprocEvent, hn, hfd, hx]
              rw [heq]
              refine ⟨?_, rfl, ⟨_, hmore, rfl⟩, hwf.remove ((hl k).2.trans hact)⟩
              intro y hy
              rw [Descs.remove_fdes_of_ne _ hy]
              exact hframe y hy

theorem Descs.subprocEvent_none {d : Descs} {n : Nat} (hn : d.table n = none) (rcount : Nat)
    (closes : Bool) : d.subprocEvent n rcount closes = d := by
  simp [Descs.subprocEvent, hn]

/-- **Step lemma.** Every step keeps the table in order. -/
theorem Descs.WF.step {d d' : Descs} {a : DescAct} (h : d.WF) (hs : d.step a = .ok d') :
    d'.WF := by
  cases a with
  | openShell =>
      obtain rfl := Except.ok.inj hs
      have hin := h.install
      refine ⟨hin.entry, hin.listed, hin.fresh, ?_, hin.pipe⟩
      intro x c hx
      by_cases hne : x = d.nextSock
      · subst hne
        obtain rfl : { rfd := lowestFree d.used } = c := by simpa using hx
        exact ⟨Nat.lt_succ_self _, by simp [Descs.install, Loop.fdeventInstall]⟩
      · exact hin.child x c (by simpa [Descs.install, hne] using hx)
  | openSocket =>
      obtain rfl := Except.ok.inj hs
      exact h.install
  | openOther =>
      obtain rfl := Except.ok.inj hs
      refine ⟨h.entry, fun k hk => ?_, h.fresh, h.child, h.pipe⟩
      exact ⟨(h.listed k hk).1, List.mem_cons_of_mem _ (h.listed k hk).2⟩
  | closeOther n =>
      simp only [Descs.step] at hs
      split at hs
      · next hn =>
        obtain rfl := Except.ok.inj hs
        refine ⟨h.entry, fun k hk => ?_, h.fresh, h.child, h.pipe⟩
        obtain ⟨htab, hused⟩ := h.listed k hk
        have hne : (d.loop.fdes k).fd ≠ n := by
          rintro rfl
          cases htab.symm.trans hn.2
        exact ⟨htab, (List.mem_erase_of_ne hne).mpr hused⟩
      · cases hs
  | closeSocket x =>
      simp only [Descs.step] at hs
      split at hs
      · next hx =>
        obtain rfl := Except.ok.inj hs
        exact h.remove hx
      · cases hs
  | ready x ev =>
      simp only [Descs.step] at hs
      split at hs
      · obtain rfl := Except.ok.inj hs
        exact h.loop (sameDescs_fdeventReady d.loop x ev) d.touched
      · cases hs
  | deliver =>
      simp only [Descs.step, Loop.fdeventPlistDequeue] at hs
      split at hs
      · next x l hl =>
        split at hl
        · cases hl
        · obtain ⟨rfl, rfl⟩ := Prod.mk.inj (Option.some.inj hl)
          obtain rfl := Except.ok.inj hs
          exact h.loop (sameDescs_fdeventTake d.loop _ _) d.touched
      · cases hs
  | exits x =>
      simp only [Descs.step] at hs
      split at hs
      · next c hc =>
        split at hs
        · obtain rfl := Except.ok.inj hs
          refine ⟨h.entry, h.listed, h.fresh, ?_, h.pipe⟩
          intro y c' hy
          by_cases hne : y = x
          · subst hne
            obtain rfl : { c with phase := .exited } = c' := by simpa using hy
            exact h.child y c hc
          · exact h.child y c' (by simpa [hne] using hy)
        · cases hs
      · cases hs
  | post x =>
      simp only [Descs.step] at hs
      split at hs
      · next c hc =>
        split at hs
        · obtain rfl := Except.ok.inj hs
          refine ⟨h.entry, h.listed, h.fresh, ?_, ?_⟩
          · intro y c' hy
            by_cases hne : y = x
            · subst hne
              obtain rfl : { c with phase := .posted } = c' := by simpa using hy
              exact h.child y c hc
            · exact h.child y c' (by simpa [hne] using hy)
          · intro p hp
            obtain hold | rfl := List.mem_append.mp hp |>.imp_right List.mem_singleton.mp
            · exact h.pipe p hold
            · exact h.child x c hc
        · cases hs
      · cases hs
  | handle rcount closes =>
      simp only [Descs.step] at hs
      split at hs
      · next n x rest hpipe =>
        obtain rfl := Except.ok.inj hs
        have hrest : { d with pipe := rest }.WF :=
          ⟨h.entry, h.listed, h.fresh, h.child,
            fun p hp => h.pipe p (hpipe ▸ List.mem_cons_of_mem _ hp)⟩
        cases hn : d.table n with
        | none =>
            rw [Descs.subprocEvent_none (d := { d with pipe := rest }) hn]
            exact hrest
        | some k => exact (Descs.subprocEvent_some hrest hn rcount closes).2.2.2
      · cases hs

/-! ### Runs -/

/-- The state after these steps, if they are possible one after the other. -/
def Descs.after (d : Descs) (as : List DescAct) : Option Descs :=
  Trans.follow Descs.step (fun _ _ => true) d as

theorem Descs.WF.after {d d' : Descs} {as : List DescAct} (h : d.WF)
    (hs : d.after as = some d') : d'.WF := by
  have hrun : Trans.Runs Descs.step (fun _ _ => True) d d' :=
    Trans.follow_runs hs fun _ _ _ => trivial
  exact hrun.invariant h fun _ _ _ hwf _ hstep => hwf.step hstep

/-- From `d` to `d'` the handler touched only the record of the socket `x`, and nothing at
all if that socket was closed. -/
structure Descs.Touches (x : SockId) (d d' : Descs) : Prop where
  others : ∀ y, y ≠ x → d'.loop.fdes y = d.loop.fdes y
  touched : ∃ new, d'.touched = d.touched ++ new ∧ ∀ e ∈ new, e.1 = x
  closed : (d.loop.fdes x).active = false → d'.loop = d.loop ∧ d'.touched = d.touched

/-- Whenever a notification is handled in the run, only the record of the shell it is about
is touched, and nothing if the shell's socket is closed. -/
def OnlyOwn (as : List DescAct) : Prop :=
  ∀ as₁ rcount closes as₂ d n x rest d', as = as₁ ++ .handle rcount closes :: as₂ →
    Descs.init.after as₁ = some d → d.pipe = (n, x) :: rest →
    d.step (.handle rcount closes) = .ok d' → d.Touches x d'

/-- Whenever a notification is handled in the run, no other socket has the number it
carries. -/
def NotReused (as : List DescAct) : Prop :=
  ∀ as₁ rcount closes as₂ d n x rest, as = as₁ ++ .handle rcount closes :: as₂ →
    Descs.init.after as₁ = some d → d.pipe = (n, x) :: rest →
    ∀ y, (d.loop.fdes y).active = true → (d.loop.fdes y).fd = n → y = x

/-- Handling one notification touches the shell's own record only, exactly if no other
socket has its number. -/
theorem Descs.handle_touches_iff {d d' : Descs} (h : d.WF) {rcount : Nat} {closes : Bool}
    {n : Nat} {x : SockId} {rest : List (Nat × SockId)} (hpipe : d.pipe = (n, x) :: rest)
    (hs : d.step (.handle rcount closes) = .ok d') :
    d.Touches x d' ↔ ∀ y, (d.loop.fdes y).active = true → (d.loop.fdes y).fd = n → y = x := by
  have hrest : { d with pipe := rest }.WF :=
    ⟨h.entry, h.listed, h.fresh, h.child,
      fun p hp => h.pipe p (hpipe ▸ List.mem_cons_of_mem _ hp)⟩
  have hd' : d' = { d with pipe := rest }.subprocEvent n rcount closes := by
    simpa [Descs.step, hpipe] using hs.symm
  subst hd'
  cases hn : d.table n with
  | none =>
      rw [Descs.subprocEvent_none (d := { d with pipe := rest }) hn]
      constructor
      · intro _ y hact hfd
        cases hn.symm.trans (hfd ▸ (h.listed y hact).1)
      · intro _
        exact ⟨fun _ _ => rfl, ⟨[], (List.append_nil _).symm, nofun⟩, fun _ => ⟨rfl, rfl⟩⟩
  | some k =>
      obtain ⟨hframe, -, ⟨more, hmore, htouched⟩, -⟩ :=
        Descs.subprocEvent_some hrest hn rcount closes
      obtain ⟨hact, hfd⟩ := h.entry n k hn
      constructor
      · intro ht y hy hyn
        -- the handler found the record of `k`, so `k` is the shell's
        obtain rfl : y = k := by
          have htab := (h.listed y hy).1
          rw [hyn, hn] at htab
          exact (Option.some.inj htab).symm
        obtain ⟨new, hnew, hown⟩ := ht.touched
        rw [htouched] at hnew
        have hmem := List.append_cancel_left hnew
        exact hown _ (hmem ▸ List.mem_cons_self)
      · intro hno
        obtain rfl := hno k hact hfd
        refine ⟨hframe, ⟨_, htouched, ?_⟩, fun hclosed => ?_⟩
        · exact List.forall_mem_cons.mpr ⟨rfl, hmore⟩
        · cases hact.symm.trans hclosed

/-- **Shell-exit notifications** affect only the shell that exited, in every run, exactly if
no other socket has the shell's descriptor number when its notification is handled. -/
theorem shell_exit_only_own_iff (as : List DescAct) : OnlyOwn as ↔ NotReused as := by
  constructor
  · intro h as₁ rcount closes as₂ d n x rest has hd hpipe
    have hwf := Descs.WF.init.after hd
    obtain ⟨d', hs⟩ : ∃ d', d.step (.handle rcount closes) = .ok d' := by
      simp [Descs.step, hpipe]
    exact (Descs.handle_touches_iff hwf hpipe hs).mp (h _ _ _ _ _ _ _ _ _ has hd hpipe hs)
  · intro h as₁ rcount closes as₂ d n x rest d' has hd hpipe hs
    have hwf := Descs.WF.init.after hd
    exact (Descs.handle_touches_iff hwf hpipe hs).mpr (h _ _ _ _ _ _ _ _ has hd hpipe)

/-- A shell's output ends and its socket is closed; another socket gets its number; then the
shell's exit is reported and ends the other socket. -/
theorem shell_exit_hits_other :
    ¬ OnlyOwn [.openShell, .closeSocket 0, .openSocket, .exits 0, .post 0,
      .handle 0 true] := by
  intro h
  have hrun :
    (Descs.init.after [.openShell, .closeSocket 0, .openSocket, .exits 0, .post 0]).any
      (fun d => d.pipe = [(3, 0)] ∧ (d.loop.fdes 1).active = true ∧ (d.loop.fdes 1).fd = 3) =
        true := by
    decide +kernel
  obtain ⟨d, hd, hP⟩ := (Option.any_eq_true _ _).mp hrun
  obtain ⟨hpipe, hact, hfd⟩ := of_decide_eq_true hP
  obtain ⟨d', hs⟩ : ∃ d', d.step (.handle 0 true) = .ok d' := by
    simp [Descs.step, hpipe]
  have ht := h _ 0 true [] d 3 0 [] d' rfl hd hpipe hs
  cases (Descs.handle_touches_iff (Descs.WF.init.after hd) hpipe hs).mp ht 1 hact hfd

end Adbd
