import Adbd.Prog

/-!
# Transports over FunctionFS

All USB transports over FunctionFS share one `usb_handle`. `usb_ffs_open_thread` opens the
control and bulk endpoints and registers a transport; when a thread of that transport ends,
`usb_ffs_kick` closes the endpoints, and the open thread opens them again and registers the
next transport. A transfer takes the descriptor number from the handle when it starts and
uses it for all its system calls, so that a thread of an earlier transport that is still in
its packet loop reads from and writes to the new connection, either because it starts a
transfer after the endpoints were opened again or because the number it holds was given to a
new endpoint.

Openings of the endpoints are numbered; each transport remembers the opening it was
registered for. Header and payload of a packet are one transfer each.

## Main definitions

* `UsbFfs`, `FfsAct`, `UsbFfs.step`: the handle, the descriptors, the open thread and the
  two threads of every transport.
* `Apart`: bytes moved between an opening and its own transport only.
* `KeepsOut`: transfers start on the own opening, and numbers in use are not given out.

## Main results

* `UsbFfs.step_cases`: what a step does.
* `UsbFfs.Inv.step`, `UsbFfs.Held.step`: what every step preserves.
* `usb_connections_apart`: runs with `KeepsOut` stay `Apart`, and a step without it can be
  followed by a transfer that crosses.
-/

namespace Adbd

/-- The two bulk endpoints: `bulk_out`, from which `adbd` reads, and `bulk_in`, to which it
writes. Each is used by one thread of a transport. -/
inductive Ep
  | source
  | sink
deriving DecidableEq, Repr

/-- The two transfers of a packet. -/
inductive Part
  | header
  | payload
deriving DecidableEq, Repr

/-- Where the thread of a transport that uses an endpoint stands: before a transfer, in
`bulk_read` or `bulk_write` with the descriptor it was given, or past its packet loop. -/
inductive IoPc
  | ready (part : Part)
  | calling (part : Part) (fd : Option Nat)
  | left
deriving DecidableEq, Repr

/-- What a descriptor number stands for: the control or a bulk endpoint of an opening, or
something else. -/
inductive FdObj
  | control (opening : Nat)
  | ep (opening : Nat) (e : Ep)
  | other
deriving DecidableEq, Repr

/-- Where `usb_ffs_open_thread` stands: waiting for the handle to be closed, in
`init_functionfs` after opening the control or the first bulk endpoint, or before
`register_usb_transport`. -/
inductive OpenPc
  | waiting
  | control
  | out
  | opened
deriving DecidableEq, Repr

/-- A transport: the opening it was registered for, whether it was kicked, and its threads. -/
structure UsbTransport where
  opening : Nat
  kicked : Bool := false
  pc : Ep → IoPc := fun _ => .ready .header

/-- Bytes moved by a system call between an opening and the thread of a transport. -/
structure Moved where
  opening : Nat
  transport : Nat
  e : Ep
deriving DecidableEq, Repr

/-- The `usb_handle` (`-1` is `none`), the descriptors, the open thread with the number of the
last opening, the transports, and what was moved. -/
structure UsbFfs where
  control : Option Nat
  bulk : Ep → Option Nat
  fds : Nat → Option FdObj
  opener : OpenPc
  opening : Nat
  transports : Nat → Option UsbTransport
  nextT : Nat
  moved : List Moved

/-- `usb_ffs_init`: the handle is closed, except that `bulk_in` keeps the `0` of `calloc`. -/
def UsbFfs.init : UsbFfs where
  control := none
  bulk
    | .source => none
    | .sink => some 0
  fds n := if n < 3 then some .other else none
  opener := .waiting
  opening := 0
  transports := fun _ => none
  nextT := 0
  moved := []

/-- How a system call of a transfer ends: bytes are moved, and possibly these were the last
of the transfer (`payload` says whether a payload follows the header); `EINTR`; or a failure,
also by a descriptor that is not open. -/
inductive CallRes
  | moved (last payload : Bool)
  | eintr
  | error
deriving DecidableEq, Repr

/-- Bytes were moved. -/
def CallRes.isMoved : CallRes → Bool
  | .moved _ _ => true
  | _ => false

/-- What happens next. -/
inductive FfsAct
  /-- `init_functionfs` opens an endpoint and gets this number, or fails -/
  | openControl (n : Nat)
  | openOut (n : Nat)
  | openIn (n : Nat)
  | openFails
  /-- `register_usb_transport` -/
  | register
  /-- a thread calls `usb_ffs_read` or `usb_ffs_write`, which take the descriptor from the
  handle -/
  | begin (t : Nat) (e : Ep)
  /-- a system call of the transfer returns -/
  | call (t : Nat) (e : Ep) (r : CallRes)
  /-- a thread leaves its packet loop -/
  | leave (t : Nat) (e : Ep)
  /-- `kick_transport` calls `usb_ffs_kick` -/
  | kick (t : Nat)
  /-- another thread opens or closes a descriptor -/
  | otherOpens (n : Nat)
  | otherCloses (n : Nat)
deriving DecidableEq, Repr

/-- Overwrite a transport. -/
def UsbFfs.putTransport (s : UsbFfs) (t : Nat) (T : UsbTransport) : UsbFfs :=
  { s with transports := Function.update s.transports t (some T) }

/-- Move a thread of a transport. -/
def UsbTransport.goto (T : UsbTransport) (e : Ep) (pc : IoPc) : UsbTransport :=
  { T with pc := Function.update T.pc e pc }

/-- A new descriptor. -/
def UsbFfs.openFd (s : UsbFfs) (n : Nat) (o : FdObj) : UsbFfs :=
  { s with fds := Function.update s.fds n (some o) }

/-- `adb_close` of a descriptor of the handle. -/
def closeFd (fds : Nat → Option FdObj) : Option Nat → Nat → Option FdObj
  | none => fds
  | some n => Function.update fds n none

/-- The part `usb_ffs_kick` does under the lock: close the three descriptors of the handle and
set them to `-1`. -/
def UsbFfs.closeHandle (s : UsbFfs) : UsbFfs :=
  { s with
    fds := closeFd (closeFd (closeFd s.fds s.control) (s.bulk .source)) (s.bulk .sink)
    control := none
    bulk := fun _ => none }

/-- The place of a thread after a system call: `write_to_remote` may fail and the packet loop
goes on, `read_from_remote` may not. -/
def afterCall (e : Ep) (part : Part) (fd : Option Nat) : CallRes → IoPc
  | .moved false _ => .calling part fd
  | .moved true payload => if part = .header ∧ payload = true then .ready .payload
      else .ready .header
  | .eintr => .calling part fd
  | .error => if e = .sink then .ready .header else .left

/-- What the system call moved. -/
def UsbFfs.note (s : UsbFfs) (t : Nat) (e : Ep) (fd : Option Nat) : CallRes → List Moved
  | .moved _ _ =>
      match fd.bind s.fds with
      | some (.ep k _) => s.moved ++ [⟨k, t, e⟩]
      | _ => s.moved
  | _ => s.moved

/-- One step. -/
def UsbFfs.step (s : UsbFfs) : FfsAct → Except Unit UsbFfs
  | .openControl n =>
      if s.opener = .waiting ∧ s.control = none ∧ s.fds n = none then
        .ok { s.openFd n (.control (s.opening + 1)) with
          control := some n, opening := s.opening + 1, opener := .control }
      else .error ()
  | .openOut n =>
      if s.opener = .control ∧ s.fds n = none then
        .ok { s.openFd n (.ep s.opening .source) with
          bulk := Function.update s.bulk .source (some n), opener := .out }
      else .error ()
  | .openIn n =>
      if s.opener = .out ∧ s.fds n = none then
        .ok { s.openFd n (.ep s.opening .sink) with
          bulk := Function.update s.bulk .sink (some n), opener := .opened }
      else .error ()
  | .openFails =>
      if s.opener = .control ∨ s.opener = .out then
        .ok { s with
          fds := closeFd (closeFd s.fds s.control) (s.bulk .source)
          control := none
          bulk := Function.update s.bulk .source none
          opener := .waiting }
      else .error ()
  | .register =>
      if s.opener = .opened then
        .ok { s.putTransport s.nextT { opening := s.opening } with
          nextT := s.nextT + 1, opener := .waiting }
      else .error ()
  | .begin t e =>
      match s.transports t with
      | some T =>
          match T.pc e with
          | .ready part => .ok (s.putTransport t (T.goto e (.calling part (s.bulk e))))
          | _ => .error ()
      | none => .error ()
  | .call t e r =>
      match s.transports t with
      | some T =>
          match T.pc e with
          | .calling part fd =>
              if r.isMoved = true → fd.bind s.fds ≠ none then
                .ok { s.putTransport t (T.goto e (afterCall e part fd r)) with
                  moved := s.note t e fd r }
              else .error ()
          | _ => .error ()
      | none => .error ()
  | .leave t e =>
      match s.transports t with
      | some T =>
          match T.pc e with
          | .ready _ => .ok (s.putTransport t (T.goto e .left))
          | _ => .error ()
      | none => .error ()
  | .kick t =>
      match s.transports t with
      | some T =>
          if T.kicked = false ∧ (T.pc .source = .left ∨ T.pc .sink = .left) then
            .ok (s.closeHandle.putTransport t { T with kicked := true })
          else .error ()
      | none => .error ()
  | .otherOpens n =>
      if s.fds n = none then .ok (s.openFd n .other) else .error ()
  | .otherCloses n =>
      if s.fds n = some .other then .ok { s with fds := Function.update s.fds n none }
      else .error ()

/-- **What a step does**, and when it is possible. -/
inductive UsbFfs.Stepped (s : UsbFfs) : FfsAct → UsbFfs → Prop
  | openControl {n : Nat} (hw : s.opener = .waiting) (hc : s.control = none)
      (hn : s.fds n = none) :
      s.Stepped (.openControl n) { s.openFd n (.control (s.opening + 1)) with
        control := some n, opening := s.opening + 1, opener := .control }
  | openOut {n : Nat} (hw : s.opener = .control) (hn : s.fds n = none) :
      s.Stepped (.openOut n) { s.openFd n (.ep s.opening .source) with
        bulk := Function.update s.bulk .source (some n), opener := .out }
  | openIn {n : Nat} (hw : s.opener = .out) (hn : s.fds n = none) :
      s.Stepped (.openIn n) { s.openFd n (.ep s.opening .sink) with
        bulk := Function.update s.bulk .sink (some n), opener := .opened }
  | openFails (hw : s.opener = .control ∨ s.opener = .out) :
      s.Stepped .openFails { s with
        fds := closeFd (closeFd s.fds s.control) (s.bulk .source)
        control := none
        bulk := Function.update s.bulk .source none
        opener := .waiting }
  | register (hw : s.opener = .opened) :
      s.Stepped .register { s.putTransport s.nextT { opening := s.opening } with
        nextT := s.nextT + 1, opener := .waiting }
  | begin {t : Nat} {e : Ep} {T : UsbTransport} {part : Part} (hT : s.transports t = some T)
      (hpc : T.pc e = .ready part) :
      s.Stepped (.begin t e) (s.putTransport t (T.goto e (.calling part (s.bulk e))))
  | call {t : Nat} {e : Ep} {r : CallRes} {T : UsbTransport} {part : Part} {fd : Option Nat}
      (hT : s.transports t = some T) (hpc : T.pc e = .calling part fd)
      (hr : r.isMoved = true → fd.bind s.fds ≠ none) :
      s.Stepped (.call t e r) { s.putTransport t (T.goto e (afterCall e part fd r)) with
        moved := s.note t e fd r }
  | leave {t : Nat} {e : Ep} {T : UsbTransport} {part : Part} (hT : s.transports t = some T)
      (hpc : T.pc e = .ready part) :
      s.Stepped (.leave t e) (s.putTransport t (T.goto e .left))
  | kick {t : Nat} {T : UsbTransport} (hT : s.transports t = some T) (hk : T.kicked = false)
      (hleft : T.pc .source = .left ∨ T.pc .sink = .left) :
      s.Stepped (.kick t) (s.closeHandle.putTransport t { T with kicked := true })
  | otherOpens {n : Nat} (hn : s.fds n = none) : s.Stepped (.otherOpens n) (s.openFd n .other)
  | otherCloses {n : Nat} (hn : s.fds n = some .other) :
      s.Stepped (.otherCloses n) { s with fds := Function.update s.fds n none }

/-- **Step cases.** The steps are looked at here only. -/
theorem UsbFfs.step_cases {s s' : UsbFfs} {a : FfsAct} (hs : s.step a = .ok s') :
    s.Stepped a s' := by
  cases a with
  | openControl n =>
      simp only [UsbFfs.step] at hs
      split at hs
      · next hn =>
        obtain rfl := Except.ok.inj hs
        exact .openControl hn.1 hn.2.1 hn.2.2
      · cases hs
  | openOut n =>
      simp only [UsbFfs.step] at hs
      split at hs
      · next hn =>
        obtain rfl := Except.ok.inj hs
        exact .openOut hn.1 hn.2
      · cases hs
  | openIn n =>
      simp only [UsbFfs.step] at hs
      split at hs
      · next hn =>
        obtain rfl := Except.ok.inj hs
        exact .openIn hn.1 hn.2
      · cases hs
  | openFails =>
      simp only [UsbFfs.step] at hs
      split at hs
      · next hw =>
        obtain rfl := Except.ok.inj hs
        exact .openFails hw
      · cases hs
  | register =>
      simp only [UsbFfs.step] at hs
      split at hs
      · next hw =>
        obtain rfl := Except.ok.inj hs
        exact .register hw
      · cases hs
  | begin t e =>
      simp only [UsbFfs.step] at hs
      split at hs
      · next T hT =>
        split at hs
        · next part hpc =>
          obtain rfl := Except.ok.inj hs
          exact .begin hT hpc
        · cases hs
      · cases hs
  | call t e r =>
      simp only [UsbFfs.step] at hs
      split at hs
      · next T hT =>
        split at hs
        · next part fd hpc =>
          split at hs
          · next hr =>
            obtain rfl := Except.ok.inj hs
            exact .call hT hpc hr
          · cases hs
        · cases hs
      · cases hs
  | leave t e =>
      simp only [UsbFfs.step] at hs
      split at hs
      · next T hT =>
        split at hs
        · next part hpc =>
          obtain rfl := Except.ok.inj hs
          exact .leave hT hpc
        · cases hs
      · cases hs
  | kick t =>
      simp only [UsbFfs.step] at hs
      split at hs
      · next T hT =>
        split at hs
        · next hk =>
          obtain rfl := Except.ok.inj hs
          exact .kick hT hk.1 hk.2
        · cases hs
      · cases hs
  | otherOpens n =>
      simp only [UsbFfs.step] at hs
      split at hs
      · next hn =>
        obtain rfl := Except.ok.inj hs
        exact .otherOpens hn
      · cases hs
  | otherCloses n =>
      simp only [UsbFfs.step] at hs
      split at hs
      · next hn =>
        obtain rfl := Except.ok.inj hs
        exact .otherCloses hn
      · cases hs

/-! ### The endpoints that are open -/

/-- What holds of the handle and the descriptors in every run: the endpoints that are open
belong to the last opening and are those of the handle; only the newest transport has not
been kicked, and it was registered for the last opening. -/
structure UsbFfs.Inv (s : UsbFfs) : Prop where
  fresh : ∀ t, s.transports t ≠ none → t < s.nextT
  eps : ∀ n k e, s.fds n = some (.ep k e) → k = s.opening ∧ s.bulk e = some n
  bulk : ∀ e n, s.bulk e = some n →
    s.fds n = some (.ep s.opening e) ∨ s.nextT = 0 ∧ s.opener ≠ .opened ∧ e = .sink
  closed : s.opener = .waiting → s.control = none → ∀ n k e, s.fds n ≠ some (.ep k e)
  begun : s.opener = .control → ∀ n k e, s.fds n ≠ some (.ep k e)
  halfway : s.opener = .out → ∀ n k, s.fds n ≠ some (.ep k .sink)
  control : s.opener ≠ .waiting → s.control ≠ none
  newest : ∀ t T, s.transports t = some T → T.kicked = false →
    t + 1 = s.nextT ∧ s.opener = .waiting ∧ s.control ≠ none
  opening : ∀ t T, s.transports t = some T →
    T.opening ≤ s.opening ∧ (s.opener ≠ .waiting → T.opening < s.opening)

theorem UsbFfs.Inv.init : UsbFfs.init.Inv where
  fresh := fun _ h => absurd rfl h
  eps n k e h := by
    simp only [UsbFfs.init] at h
    split at h <;> cases h
  bulk e n h := by
    cases e with
    | source => cases h
    | sink => exact .inr ⟨rfl, by decide, rfl⟩
  closed _ _ n k e h := by
    simp only [UsbFfs.init] at h
    split at h <;> cases h
  begun := nofun
  halfway := nofun
  control h := absurd rfl h
  newest := nofun
  opening := nofun

/-- Closing a descriptor opens no endpoint. -/
theorem closeFd_ep {fds : Nat → Option FdObj} {d : Option Nat} {n : Nat} {o : FdObj}
    (h : closeFd fds d n = some o) : fds n = some o ∧ d ≠ some n := by
  cases d with
  | none => exact ⟨h, nofun⟩
  | some m =>
      by_cases hn : n = m
      · subst hn
        simp [closeFd] at h
      · refine ⟨by simpa [closeFd, hn] using h, ?_⟩
        rintro ⟨⟩
        exact hn rfl

/-- A descriptor that was just given out. -/
theorem UsbFfs.openFd_cases {s : UsbFfs} {n m : Nat} {o o' : FdObj}
    (h : (s.openFd n o).fds m = some o') : m = n ∧ o' = o ∨ m ≠ n ∧ s.fds m = some o' := by
  by_cases hm : m = n
  · subst hm
    left
    exact ⟨rfl, by simpa [UsbFfs.openFd] using h.symm⟩
  · right
    exact ⟨hm, by simpa [UsbFfs.openFd, hm] using h⟩

/-- A descriptor that was open keeps its meaning when another number is given out. -/
theorem UsbFfs.openFd_old {s : UsbFfs} {n m : Nat} {o o' : FdObj} (hn : s.fds n = none)
    (hm : s.fds m = some o') : (s.openFd n o).fds m = some o' := by
  have hne : m ≠ n := by
    rintro rfl
    cases hn.symm.trans hm
  simpa [UsbFfs.openFd, hne] using hm

theorem UsbFfs.Inv.openControl {s : UsbFfs} (h : s.Inv) {n : Nat} (hw : s.opener = .waiting)
    (hc : s.control = none) :
    UsbFfs.Inv { s.openFd n (.control (s.opening + 1)) with
      control := some n, opening := s.opening + 1, opener := .control } := by
  have hno : ∀ m k e, (s.openFd n (.control (s.opening + 1))).fds m ≠ some (.ep k e) := by
    intro m k e hm
    obtain ⟨-, ho⟩ | ⟨-, hold⟩ := UsbFfs.openFd_cases hm
    · cases ho
    · exact h.closed hw hc m k e hold
  refine ⟨h.fresh, fun m k e hm => absurd hm (hno m k e), ?_, nofun, fun _ => hno,
    nofun, fun _ => nofun, ?_, ?_⟩
  · intro e m hm
    obtain hep | ⟨hz, -, rfl⟩ := h.bulk e m hm
    · exact absurd hep (h.closed hw hc m s.opening e)
    · exact .inr ⟨hz, nofun, rfl⟩
  · intro t T hT hk
    exact absurd hc (h.newest t T hT hk).2.2
  · intro t T hT
    have hle := (h.opening t T hT).1
    exact ⟨Nat.le_succ_of_le hle, fun _ => Nat.lt_succ_of_le hle⟩

theorem UsbFfs.Inv.openOut {s : UsbFfs} (h : s.Inv) {n : Nat} (hw : s.opener = .control) :
    UsbFfs.Inv { s.openFd n (.ep s.opening .source) with
      bulk := Function.update s.bulk .source (some n), opener := .out } := by
  have honly : ∀ m k e, (s.openFd n (.ep s.opening .source)).fds m = some (.ep k e) →
      m = n ∧ k = s.opening ∧ e = .source := by
    intro m k e hm
    obtain ⟨rfl, ho⟩ | ⟨-, hold⟩ := UsbFfs.openFd_cases hm
    · cases ho
      exact ⟨rfl, rfl, rfl⟩
    · exact absurd hold (h.begun hw m k e)
  refine ⟨h.fresh, ?_, ?_, nofun, nofun, ?_, fun _ => h.control (by simp [hw]), ?_, ?_⟩
  · intro m k e hm
    obtain ⟨rfl, rfl, rfl⟩ := honly m k e hm
    exact ⟨rfl, by simp⟩
  · intro e m hm
    cases e with
    | source =>
        obtain rfl : n = m := by simpa using hm
        exact .inl (by simp [UsbFfs.openFd])
    | sink =>
        obtain hep | ⟨hz, -, -⟩ := h.bulk .sink m (by simpa using hm)
        · exact absurd hep (h.begun hw m _ _)
        · exact .inr ⟨hz, nofun, rfl⟩
  · intro _ m k hm
    cases (honly m k .sink hm).2.2
  · intro t T hT hk
    cases hw.symm.trans (h.newest t T hT hk).2.1
  · intro t T hT
    have hlt := (h.opening t T hT).2 (by simp [hw])
    exact ⟨Nat.le_of_lt hlt, fun _ => hlt⟩

theorem UsbFfs.Inv.openIn {s : UsbFfs} (h : s.Inv) {n : Nat} (hw : s.opener = .out)
    (hn : s.fds n = none) :
    UsbFfs.Inv { s.openFd n (.ep s.opening .sink) with
      bulk := Function.update s.bulk .sink (some n), opener := .opened } := by
  refine ⟨h.fresh, ?_, ?_, nofun, nofun, nofun, fun _ => h.control (by simp [hw]), ?_, ?_⟩
  · intro m k e hm
    obtain ⟨rfl, ho⟩ | ⟨-, hold⟩ := UsbFfs.openFd_cases hm
    · cases ho
      exact ⟨rfl, by simp⟩
    · cases e with
      | source =>
          obtain ⟨hk, hb⟩ := h.eps m k .source hold
          exact ⟨hk, by simpa using hb⟩
      | sink => exact absurd hold (h.halfway hw m k)
  · intro e m hm
    cases e with
    | source =>
        obtain hep | ⟨-, -, he⟩ := h.bulk .source m (by simpa using hm)
        · exact .inl (UsbFfs.openFd_old hn hep)
        · cases he
    | sink =>
        obtain rfl : n = m := by simpa using hm
        exact .inl (by simp [UsbFfs.openFd])
  · intro t T hT hk
    cases hw.symm.trans (h.newest t T hT hk).2.1
  · intro t T hT
    have hlt := (h.opening t T hT).2 (by simp [hw])
    exact ⟨Nat.le_of_lt hlt, fun _ => hlt⟩

theorem UsbFfs.Inv.openFails {s : UsbFfs} (h : s.Inv)
    (hw : s.opener = .control ∨ s.opener = .out) :
    UsbFfs.Inv { s with
      fds := closeFd (closeFd s.fds s.control) (s.bulk .source)
      control := none
      bulk := Function.update s.bulk .source none
      opener := .waiting } := by
  have hmid : s.opener ≠ .waiting := by
    rintro hwait
    obtain hw | hw := hw <;> cases hwait.symm.trans hw
  have hsink : ∀ n k, s.fds n ≠ some (.ep k .sink) := by
    intro n k
    obtain hw | hw := hw
    · exact h.begun hw n k .sink
    · exact h.halfway hw n k
  have hno : ∀ n k e, closeFd (closeFd s.fds s.control) (s.bulk .source) n ≠
    some (.ep k e) := by
    intro n k e hn
    obtain ⟨hn, hne⟩ := closeFd_ep hn
    obtain ⟨hn, -⟩ := closeFd_ep hn
    cases e with
    | source => exact hne (h.eps n k .source hn).2
    | sink => exact hsink n k hn
  refine ⟨h.fresh, fun n k e hn => absurd hn (hno n k e), ?_, fun _ _ => hno, nofun, nofun,
    fun hne => absurd rfl hne, ?_, ?_⟩
  · intro e n hn
    cases e with
    | source => simp at hn
    | sink =>
        obtain hep | ⟨hz, -, -⟩ := h.bulk .sink n (by simpa using hn)
        · exact absurd hep (hsink n _)
        · exact .inr ⟨hz, nofun, rfl⟩
  · intro t T hT hk
    exact absurd (h.newest t T hT hk).2.1 hmid
  · intro t T hT
    exact ⟨(h.opening t T hT).1, fun hne => absurd rfl hne⟩

/-- The transports after one was overwritten. -/
theorem UsbFfs.putTransport_cases {s : UsbFfs} {t t' : Nat} {T T' : UsbTransport}
    (h : (s.putTransport t T).transports t' = some T') :
    t' = t ∧ T' = T ∨ t' ≠ t ∧ s.transports t' = some T' := by
  by_cases ht : t' = t
  · subst ht
    left
    exact ⟨rfl, by simpa [UsbFfs.putTransport] using h.symm⟩
  · right
    exact ⟨ht, by simpa [UsbFfs.putTransport, ht] using h⟩

@[simp] theorem UsbFfs.putTransport_self (s : UsbFfs) (t : Nat) (T : UsbTransport) :
    (s.putTransport t T).transports t = some T := by
  simp [UsbFfs.putTransport]

theorem UsbFfs.Inv.register {s : UsbFfs} (h : s.Inv) (hw : s.opener = .opened) :
    UsbFfs.Inv { s.putTransport s.nextT { opening := s.opening } with
      nextT := s.nextT + 1, opener := .waiting } := by
  have hctl : s.control ≠ none := h.control (by simp [hw])
  refine ⟨?_, h.eps, ?_, fun _ hc => absurd hc hctl, nofun, nofun, fun hne => absurd rfl hne,
    ?_, ?_⟩
  · intro t ht
    obtain ⟨T, hT⟩ := Option.ne_none_iff_exists'.mp ht
    obtain ⟨rfl, -⟩ | ⟨-, hold⟩ := UsbFfs.putTransport_cases (s := s) hT
    · exact Nat.lt_succ_self _
    · exact Nat.lt_succ_of_lt (h.fresh t (by simp [hold]))
  · intro e n hn
    obtain hep | ⟨-, hne, -⟩ := h.bulk e n hn
    · exact .inl hep
    · exact absurd hw hne
  · intro t T hT hk
    obtain ⟨rfl, -⟩ | ⟨-, hold⟩ := UsbFfs.putTransport_cases (s := s) hT
    · exact ⟨rfl, rfl, hctl⟩
    · cases hw.symm.trans (h.newest t T hold hk).2.1
  · intro t T hT
    obtain ⟨-, rfl⟩ | ⟨-, hold⟩ := UsbFfs.putTransport_cases (s := s) hT
    · exact ⟨Nat.le_refl _, fun hne => absurd rfl hne⟩
    · exact ⟨(h.opening t T hold).1, fun hne => absurd rfl hne⟩

/-- A thread of a transport moves on. -/
theorem UsbFfs.Inv.goto {s : UsbFfs} (h : s.Inv) {t : Nat} {T : UsbTransport}
    (hT : s.transports t = some T) (e : Ep) (pc : IoPc) (l : List Moved) :
    UsbFfs.Inv { s.putTransport t (T.goto e pc) with moved := l } := by
  have hold : ∀ t' T', (s.putTransport t (T.goto e pc)).transports t' = some T' →
      ∃ T₀, s.transports t' = some T₀ ∧ T'.opening = T₀.opening ∧ T'.kicked = T₀.kicked := by
    intro t' T' hT'
    obtain ⟨rfl, rfl⟩ | ⟨-, hold⟩ := UsbFfs.putTransport_cases hT'
    · exact ⟨T, hT, rfl, rfl⟩
    · exact ⟨T', hold, rfl, rfl⟩
  refine ⟨?_, h.eps, h.bulk, h.closed, h.begun, h.halfway, h.control, ?_, ?_⟩
  · intro t' ht'
    obtain ⟨T', hT'⟩ := Option.ne_none_iff_exists'.mp ht'
    obtain ⟨T₀, h₀, -⟩ := hold t' T' hT'
    exact h.fresh t' (by simp [h₀])
  · intro t' T' hT' hk
    obtain ⟨T₀, h₀, -, hk₀⟩ := hold t' T' hT'
    exact h.newest t' T₀ h₀ (hk₀ ▸ hk)
  · intro t' T' hT'
    obtain ⟨T₀, h₀, ho, -⟩ := hold t' T' hT'
    rw [ho]
    exact h.opening t' T₀ h₀

theorem UsbFfs.Inv.kick {s : UsbFfs} (h : s.Inv) {t : Nat} {T : UsbTransport}
    (hT : s.transports t = some T) (hk : T.kicked = false) :
    UsbFfs.Inv (s.closeHandle.putTransport t { T with kicked := true }) := by
  obtain ⟨hlast, hwait, hctl⟩ := h.newest t T hT hk
  have hno : ∀ n k e, s.closeHandle.fds n ≠ some (.ep k e) := by
    intro n k e hn
    obtain ⟨hn, hsink⟩ := closeFd_ep hn
    obtain ⟨hn, hsource⟩ := closeFd_ep hn
    obtain ⟨hn, -⟩ := closeFd_ep hn
    cases e with
    | source => exact hsource (h.eps n k .source hn).2
    | sink => exact hsink (h.eps n k .sink hn).2
  have hwait' : (s.closeHandle.putTransport t { T with kicked := true }).opener =
    .waiting := hwait
  refine ⟨?_, fun n k e hn => absurd hn (hno n k e), nofun, fun _ _ => hno, ?_, ?_, ?_, ?_, ?_⟩
  · intro t' ht'
    obtain ⟨T', hT'⟩ := Option.ne_none_iff_exists'.mp ht'
    obtain ⟨rfl, -⟩ | ⟨-, hold⟩ := UsbFfs.putTransport_cases hT'
    · exact h.fresh t' (by simp [hT])
    · exact h.fresh t' (by rw [show s.transports t' = some T' from hold]; simp)
  · exact fun hc => absurd (hwait'.symm.trans hc) (by decide)
  · exact fun hc => absurd (hwait'.symm.trans hc) (by decide)
  · exact fun hne => absurd hwait' hne
  · intro t' T' hT' hk'
    obtain ⟨-, rfl⟩ | ⟨hne, hold⟩ := UsbFfs.putTransport_cases hT'
    · cases hk'
    · have hlast' := (h.newest t' T' hold hk').1
      exact absurd (Nat.succ.inj (hlast'.trans hlast.symm)) hne
  · intro t' T' hT'
    refine ⟨?_, fun hne => absurd hwait' hne⟩
    obtain ⟨rfl, rfl⟩ | ⟨-, hold⟩ := UsbFfs.putTransport_cases hT'
    · exact (h.opening t' T hT).1
    · exact (h.opening t' T' hold).1

/-- A change of descriptors that are not endpoints. -/
theorem UsbFfs.Inv.other {s : UsbFfs} (h : s.Inv) {fds : Nat → Option FdObj}
    (heps : ∀ n k e, fds n = some (.ep k e) ↔ s.fds n = some (.ep k e)) :
    UsbFfs.Inv { s with fds := fds } where
  fresh := h.fresh
  eps n k e hn := h.eps n k e ((heps n k e).mp hn)
  bulk e n hn := (h.bulk e n hn).imp_left (heps n s.opening e).mpr
  closed hw hc n k e hn := h.closed hw hc n k e ((heps n k e).mp hn)
  begun hw n k e hn := h.begun hw n k e ((heps n k e).mp hn)
  halfway hw n k hn := h.halfway hw n k ((heps n k .sink).mp hn)
  control := h.control
  newest := h.newest
  opening := h.opening

theorem UsbFfs.openOther_ep {s : UsbFfs} {m : Nat} (hm : s.fds m = none) (n k : Nat) (e : Ep) :
    Function.update s.fds m (some .other) n = some (.ep k e) ↔ s.fds n = some (.ep k e) := by
  by_cases hn : n = m
  · subst hn
    simp [hm]
  · simp [hn]

theorem UsbFfs.closeOther_ep {s : UsbFfs} {m : Nat} (hm : s.fds m = some .other) (n k : Nat)
    (e : Ep) :
    Function.update s.fds m none n = some (.ep k e) ↔ s.fds n = some (.ep k e) := by
  by_cases hn : n = m
  · subst hn
    simp [hm]
  · simp [hn]

/-- **Step lemma.** Every step keeps handle and descriptors in order. -/
theorem UsbFfs.Inv.step {s s' : UsbFfs} {a : FfsAct} (h : s.Inv) (hs : s.step a = .ok s') :
    s'.Inv := by
  cases UsbFfs.step_cases hs with
  | openControl hw hc => exact h.openControl hw hc
  | openOut hw => exact h.openOut hw
  | openIn hw hn => exact h.openIn hw hn
  | openFails hw => exact h.openFails hw
  | register hw => exact h.register hw
  | begin hT => exact h.goto hT _ _ s.moved
  | call hT => exact h.goto hT _ _ _
  | leave hT => exact h.goto hT _ _ s.moved
  | kick hT hk => exact h.kick hT hk
  | otherOpens hn => exact h.other (UsbFfs.openOther_ep hn)
  | otherCloses hn => exact h.other (UsbFfs.closeOther_ep hn)

/-! ### Connections kept apart -/

/-- Bytes were moved only between an opening and the transport registered for it. -/
def Apart (s : UsbFfs) : Prop :=
  ∀ m ∈ s.moved, ∃ T, s.transports m.transport = some T ∧ T.opening = m.opening

/-- A thread starts a transfer only while the handle is closed or holds the opening its
transport was registered for, and a bulk endpoint gets a number that no thread in a transfer
holds. -/
def KeepsOut (s : UsbFfs) : FfsAct → Prop
  | .begin t e => ∀ T, s.transports t = some T → s.bulk e ≠ none → T.opening = s.opening
  | .openOut n | .openIn n =>
      ∀ t < s.nextT, ∀ T, s.transports t = some T →
        ∀ e part, T.pc e ≠ .calling part (some n)
  | _ => True

/-- `KeepsOut` as a test, over the two endpoints and the two parts of a packet. -/
def keepsOut (s : UsbFfs) : FfsAct → Bool
  | .begin t e => ∀ T ∈ s.transports t, s.bulk e ≠ none → T.opening = s.opening
  | .openOut n | .openIn n =>
      ∀ t < s.nextT, ∀ T ∈ s.transports t, ∀ e ∈ [Ep.source, Ep.sink],
        ∀ part ∈ [Part.header, Part.payload], T.pc e ≠ .calling part (some n)
  | _ => true

theorem KeepsOut.of_test {s : UsbFfs} {a : FfsAct} (h : keepsOut s a = true) :
    KeepsOut s a := by
  have hopen (n : Nat) (h : ∀ t < s.nextT, ∀ T ∈ s.transports t, ∀ e ∈ [Ep.source, Ep.sink],
      ∀ part ∈ [Part.header, Part.payload], T.pc e ≠ .calling part (some n)) :
      ∀ t < s.nextT, ∀ T, s.transports t = some T → ∀ e part,
      T.pc e ≠ .calling part (some n) := by
    intro t ht T hT e part
    exact h t ht T hT e (by cases e <;> simp) part (by cases part <;> simp)
  cases a with
  | begin t e =>
      intro T hT
      exact (of_decide_eq_true h) T hT
  | openOut n => exact hopen n (of_decide_eq_true h)
  | openIn n => exact hopen n (of_decide_eq_true h)
  | openControl | openFails | register | call | leave | kick | otherOpens | otherCloses =>
      exact trivial

/-- A thread in a transfer holds no endpoint of another opening than its transport's. -/
def UsbFfs.Held (s : UsbFfs) : Prop :=
  ∀ t T e part n, s.transports t = some T → T.pc e = .calling part (some n) →
    ∀ k e', s.fds n = some (.ep k e') → k = T.opening

/-- No step takes away a transport or changes the opening it was registered for. -/
theorem UsbFfs.Inv.step_transport {s s' : UsbFfs} {a : FfsAct} (h : s.Inv)
    (hs : s.step a = .ok s') {t : Nat} {T : UsbTransport} (hT : s.transports t = some T) :
    ∃ T', s'.transports t = some T' ∧ T'.opening = T.opening := by
  have hput : ∀ (s₁ : UsbFfs) (t₁ : Nat) (T₀ T₁ : UsbTransport), s₁.transports = s.transports →
      s.transports t₁ = some T₀ → T₁.opening = T₀.opening →
      ∃ T', (s₁.putTransport t₁ T₁).transports t = some T' ∧ T'.opening = T.opening := by
    intro s₁ t₁ T₀ T₁ h₁ h₀ ho
    by_cases ht : t = t₁
    · subst ht
      obtain rfl := Option.some.inj (h₀.symm.trans hT)
      exact ⟨T₁, by simp [UsbFfs.putTransport], ho⟩
    · exact ⟨T, by simpa [UsbFfs.putTransport, ht, h₁] using hT, rfl⟩
  cases UsbFfs.step_cases hs with
  | register =>
      have hne : t ≠ s.nextT := Nat.ne_of_lt (h.fresh t (by simp [hT]))
      exact ⟨T, by simpa [UsbFfs.putTransport, hne] using hT, rfl⟩
  | begin h₀ | call h₀ | leave h₀ => exact hput s _ _ _ rfl h₀ rfl
  | kick h₀ => exact hput s.closeHandle _ _ _ rfl h₀ rfl
  | openControl | openOut | openIn | openFails | otherOpens | otherCloses => exact ⟨T, hT, rfl⟩

/-- A thread moves on, to a place where it holds nothing of another opening. -/
theorem UsbFfs.Held.goto {s : UsbFfs} (h : s.Held) {t : Nat} {T : UsbTransport}
    (hT : s.transports t = some T) {e : Ep} {pc : IoPc} (l : List Moved)
    (hpc : ∀ part n, pc = .calling part (some n) → ∀ k e', s.fds n = some (.ep k e') →
      k = T.opening) :
    UsbFfs.Held { s.putTransport t (T.goto e pc) with moved := l } := by
  intro t' T' e₁ part n hT' hcall k e' hn
  obtain ⟨rfl, rfl⟩ | ⟨-, hold⟩ := UsbFfs.putTransport_cases (s := s) hT'
  · by_cases he : e₁ = e
    · subst he
      exact hpc part n (by simpa [UsbTransport.goto] using hcall) k e' hn
    · exact h t' T e₁ part n hT (by simpa [UsbTransport.goto, he] using hcall) k e' hn
  · exact h t' T' e₁ part n hold hcall k e' hn

/-- A change of the descriptors that gives no held number to an endpoint. -/
theorem UsbFfs.Held.fds {s s' : UsbFfs} (h : s.Held) (hT : s'.transports = s.transports)
    (hfds : ∀ t T e part n, s.transports t = some T → T.pc e = .calling part (some n) →
      ∀ k e', s'.fds n = some (.ep k e') → s.fds n = some (.ep k e')) : s'.Held := by
  intro t T e part n ht hcall k e' hn
  rw [hT] at ht
  exact h t T e part n ht hcall k e' (hfds t T e part n ht hcall k e' hn)

/-- After a call that goes on, the thread still holds the descriptor it held. -/
theorem afterCall_calling {e : Ep} {part part' : Part} {fd : Option Nat} {n : Nat}
    {r : CallRes} (h : afterCall e part fd r = .calling part' (some n)) : fd = some n := by
  match r with
  | .moved false _ =>
      cases h
      rfl
  | .moved true payload =>
      rw [afterCall] at h
      split at h <;> cases h
  | .eintr =>
      cases h
      rfl
  | .error =>
      rw [afterCall] at h
      split at h <;> cases h

/-- **Step lemma.** A step that keeps others out leaves no thread with an endpoint of
another opening. -/
theorem UsbFfs.Held.step {s s' : UsbFfs} {a : FfsAct} (h : s.Held) (hi : s.Inv)
    (ha : KeepsOut s a) (hs : s.step a = .ok s') : s'.Held := by
  -- a number given to an endpoint is held by no thread
  have hopen : ∀ n o, (∀ t < s.nextT, ∀ T, s.transports t = some T →
      ∀ e part, T.pc e ≠ .calling part (some n)) →
      ∀ t T e part m, s.transports t = some T → T.pc e = .calling part (some m) →
        ∀ k e', (s.openFd n o).fds m = some (.ep k e') → s.fds m = some (.ep k e') := by
    intro n o hno t T e part m hT hcall k e' hm
    obtain ⟨rfl, -⟩ | ⟨-, hold⟩ := UsbFfs.openFd_cases hm
    · exact absurd hcall (hno t (hi.fresh t (by simp [hT])) T hT e part)
    · exact hold
  cases UsbFfs.step_cases hs with
  | openControl hw hc hn =>
      refine h.fds rfl fun t T e part m hT hcall k e' hm => ?_
      obtain ⟨-, ho⟩ | ⟨-, hold⟩ := UsbFfs.openFd_cases (s := s) hm
      · cases ho
      · exact hold
  | openOut | openIn => exact h.fds rfl (hopen _ _ ha)
  | openFails =>
      refine h.fds rfl fun t T e part m hT hcall k e' hm => ?_
      exact (closeFd_ep (closeFd_ep hm).1).1
  | register =>
      intro t T e part n hT hcall k e' hn
      obtain ⟨-, rfl⟩ | ⟨-, hold⟩ := UsbFfs.putTransport_cases (s := s) hT
      · cases hcall
      · exact h t T e part n hold hcall k e' hn
  | begin hT hpc =>
      refine h.goto hT s.moved ?_
      intro part n hpc k e' hn
      have hbulk := (IoPc.calling.inj hpc).2
      rw [ha _ hT (by simp [hbulk])]
      exact (hi.eps n k e' hn).1
  | call hT hpc =>
      refine h.goto hT _ ?_
      intro part' n hafter k e' hn
      obtain rfl := afterCall_calling hafter
      exact h _ _ _ _ n hT hpc k e' hn
  | leave hT => exact h.goto hT s.moved nofun
  | kick hT =>
      intro t' T' e part n hT' hcall k e' hn
      have hn' : s.fds n = some (.ep k e') := (closeFd_ep (closeFd_ep (closeFd_ep hn).1).1).1
      obtain ⟨rfl, rfl⟩ | ⟨-, hold⟩ := UsbFfs.putTransport_cases (s := s.closeHandle) hT'
      · exact h t' _ e part n hT hcall k e' hn'
      · exact h t' T' e part n hold hcall k e' hn'
  | otherOpens hn =>
      exact h.fds rfl fun _ _ _ _ m _ _ k e' => (UsbFfs.openOther_ep hn m k e').mp
  | otherCloses hn =>
      exact h.fds rfl fun _ _ _ _ m _ _ k e' => (UsbFfs.closeOther_ep hn m k e').mp

/-- What a step moves: nothing, or bytes between an endpoint and the thread that holds its
number. -/
theorem UsbFfs.step_moved {s s' : UsbFfs} {a : FfsAct} (hs : s.step a = .ok s') :
    s'.moved = s.moved ∨ ∃ t e T part n k e', s.transports t = some T ∧
      T.pc e = .calling part (some n) ∧ s.fds n = some (.ep k e') ∧
      s'.moved = s.moved ++ [⟨k, t, e⟩] := by
  cases UsbFfs.step_cases hs with
  | @call t e r T part fd hT hpc =>
      cases r with
      | moved last payload =>
          cases hfd : fd with
          | none => exact .inl (by simp [UsbFfs.note])
          | some n =>
              cases hn : s.fds n with
              | none => exact .inl (by simp [UsbFfs.note, hn])
              | some o =>
                  cases o with
                  | control k => exact .inl (by simp [UsbFfs.note, hn])
                  | other => exact .inl (by simp [UsbFfs.note, hn])
                  | ep k e' =>
                      exact .inr ⟨t, e, T, part, n, k, e', hT, hfd ▸ hpc, hn,
                        by simp [UsbFfs.note, hn]⟩
      | eintr => exact .inl rfl
      | error => exact .inl rfl
  | openControl | openOut | openIn | openFails | register | begin | leave | kick | otherOpens
  | otherCloses => exact .inl rfl

theorem Apart.step {s s' : UsbFfs} {a : FfsAct} (h : Apart s) (hi : s.Inv) (hh : s.Held)
    (hs : s.step a = .ok s') : Apart s' := by
  have hold : ∀ m ∈ s.moved, ∃ T, s'.transports m.transport = some T ∧
    T.opening = m.opening := by
    intro m hm
    obtain ⟨T, hT, ho⟩ := h m hm
    obtain ⟨T', hT', ho'⟩ := hi.step_transport hs hT
    exact ⟨T', hT', ho'.trans ho⟩
  intro m hm
  obtain heq | ⟨t, e, T, part, n, k, e', hT, hpc, hn, heq⟩ := UsbFfs.step_moved hs
  · exact hold m (heq ▸ hm)
  · rw [heq] at hm
    obtain hm | hm := List.mem_append.mp hm
    · exact hold m hm
    · obtain rfl := List.mem_singleton.mp hm
      obtain ⟨T', hT', ho'⟩ := hi.step_transport hs hT
      exact ⟨T', hT', ho'.trans (hh t T e part n hT hpc k e' hn).symm⟩

/-! ### Connections that meet -/

/-- A thread that holds an endpoint of another opening than its transport's can move bytes
on it. -/
theorem UsbFfs.crosses {s : UsbFfs} {t : Nat} {T : UsbTransport} {e e' : Ep} {part : Part}
    {n k : Nat} (hT : s.transports t = some T) (hpc : T.pc e = .calling part (some n))
    (hn : s.fds n = some (.ep k e')) (hne : T.opening ≠ k) :
    ∃ s', s.step (.call t e (.moved true false)) = .ok s' ∧ ¬ Apart s' := by
  refine ⟨{ s.putTransport t (T.goto e (afterCall e part (some n) (.moved true false))) with
    moved := s.moved ++ [⟨k, t, e⟩] }, ?_, ?_⟩
  · simp [UsbFfs.step, hT, hpc, hn, UsbFfs.note, CallRes.isMoved]
  · intro hap
    obtain ⟨T', hT', ho⟩ := hap ⟨k, t, e⟩ (List.mem_append_right _ List.mem_cons_self)
    obtain rfl := Option.some.inj ((UsbFfs.putTransport_self s t _).symm.trans hT')
    exact hne ho

/-- A step that does not keep others out can be followed by a transfer that crosses. -/
theorem UsbFfs.Inv.crosses_of_not_keepsOut {s s' : UsbFfs} {a : FfsAct} (h : s.Inv)
    (hs : s.step a = .ok s') (ha : ¬ KeepsOut s a) :
    ∃ t e s'', s'.step (.call t e (.moved true false)) = .ok s'' ∧ ¬ Apart s'' := by
  -- a thread holds a number that is given to an endpoint of the new opening
  have hopen : ∀ n e₀, s.opener ≠ .waiting → ¬ (∀ t < s.nextT, ∀ T, s.transports t = some T →
      ∀ e part, T.pc e ≠ .calling part (some n)) → s'.transports = s.transports →
      s'.fds n = some (.ep s.opening e₀) →
      ∃ t e s'', s'.step (.call t e (.moved true false)) = .ok s'' ∧ ¬ Apart s'' := by
    intro n e₀ hmid hno htr hn
    push Not at hno
    obtain ⟨t, -, T, hT, e, part, hpc⟩ := hno
    have hlt := (h.opening t T hT).2 hmid
    exact ⟨t, e, UsbFfs.crosses (htr ▸ hT) hpc hn (Nat.ne_of_lt hlt)⟩
  cases UsbFfs.step_cases hs with
  | @begin t e T part hT hpc =>
      have hne : s.bulk e ≠ none ∧ T.opening ≠ s.opening := by
        refine ⟨fun hb => ha fun _ _ hb' => absurd hb hb', fun ho => ha fun T' hT' _ => ?_⟩
        rw [← Option.some.inj (hT.symm.trans hT')]
        exact ho
      obtain ⟨n, hn⟩ := Option.ne_none_iff_exists'.mp hne.1
      have hep : s.fds n = some (.ep s.opening e) := by
        obtain hep | ⟨hz, -⟩ := h.bulk e n hn
        · exact hep
        · have hlt := h.fresh t (by simp [hT])
          omega
      have hheld : (T.goto e (.calling part (s.bulk e))).pc e = .calling part (some n) := by
        simp [UsbTransport.goto, hn]
      exact ⟨t, e, UsbFfs.crosses (UsbFfs.putTransport_self ..) hheld hep hne.2⟩
  | openOut hw => exact hopen _ .source (by simp [hw]) ha rfl (by simp [UsbFfs.openFd])
  | openIn hw => exact hopen _ .sink (by simp [hw]) ha rfl (by simp [UsbFfs.openFd])
  | openControl | openFails | register | call | leave | kick | otherOpens | otherCloses =>
      exact absurd trivial ha

/-- **USB connections.** In every run in which threads start transfers only on their own
opening or a closed handle, and no endpoint gets a number that a transfer still holds, no
bytes pass between a transport and another opening than its own; and after any other step
the next system call can make them pass. -/
theorem usb_connections_apart (s : UsbFfs) :
    (Trans.Runs UsbFfs.step KeepsOut UsbFfs.init s → Apart s) ∧
    (Trans.Runs UsbFfs.step (fun _ _ => True) UsbFfs.init s →
      ∀ a s', s.step a = .ok s' → ¬ KeepsOut s a →
        ∃ t e s'', s'.step (.call t e (.moved true false)) = .ok s'' ∧ ¬ Apart s'') := by
  constructor
  · intro h
    have hinv : s.Inv ∧ s.Held ∧ Apart s := by
      refine Trans.Runs.invariant (I := fun s => s.Inv ∧ s.Held ∧ Apart s) h
        ⟨UsbFfs.Inv.init, nofun, nofun⟩ ?_
      rintro x a x' ⟨hi, hh, hap⟩ ha hs
      exact ⟨hi.step hs, hh.step hi ha hs, hap.step hi hh hs⟩
    exact hinv.2.2
  · intro h a s' hs ha
    have hi : s.Inv :=
      Trans.Runs.invariant (I := UsbFfs.Inv) h UsbFfs.Inv.init fun _ _ _ hx _ hs => hx.step hs
    exact hi.crosses_of_not_keepsOut hs ha

/-- The host goes away when both threads of the transport have left their loops: the endpoints
get the same numbers again, and the packets of the two openings stay apart. -/
theorem usb_connections_apart_replug :
    ∃ s, (s.moved = [⟨1, 0, .source⟩, ⟨1, 0, .sink⟩, ⟨2, 1, .source⟩]) ∧
      Trans.Runs UsbFfs.step KeepsOut UsbFfs.init s ∧ Apart s := by
  have hfollow : (Trans.follow UsbFfs.step keepsOut UsbFfs.init
      [.openControl 3, .openOut 4, .openIn 5, .register, .begin 0 .source,
        .call 0 .source (.moved true false), .begin 0 .sink, .call 0 .sink (.moved true false),
        .begin 0 .source, .call 0 .source .error, .leave 0 .sink, .kick 0, .openControl 3,
        .openOut 4, .openIn 5, .register, .begin 1 .source,
        .call 1 .source (.moved true false)]).any
      (fun s => s.moved = [⟨1, 0, .source⟩, ⟨1, 0, .sink⟩, ⟨2, 1, .source⟩]) = true := by
    decide +kernel
  obtain ⟨s, hrun, hmoved⟩ := Trans.exists_runs _ (fun _ _ h => KeepsOut.of_test h) hfollow
  exact ⟨s, of_decide_eq_true hmoved, hrun, (usb_connections_apart s).1 hrun⟩

/-- The host goes away: the reader of the first transport fails and kicks it, the endpoints
are opened again for a second one, and the writer of the first one writes a packet that was
still in its pipe. -/
def replug : List FfsAct :=
  [.openControl 3, .openOut 4, .openIn 5, .register, .begin 0 .source,
    .call 0 .source .error, .kick 0,
    .openControl 3, .openOut 4, .openIn 5, .register, .begin 0 .sink,
      .call 0 .sink (.moved true false)]

theorem usb_packet_crosses :
    ∃ s, Trans.Runs UsbFfs.step (fun _ _ => True) UsbFfs.init s ∧ ¬ Apart s := by
  have hrun : (Trans.follow UsbFfs.step (fun _ _ => true) UsbFfs.init replug).any (fun s =>
      s.moved = [⟨2, 0, .sink⟩] ∧ (s.transports 0).map (·.opening) = some 1) = true := by
    decide +kernel
  obtain ⟨s, hs, hP⟩ := (Option.any_eq_true _ _).mp hrun
  obtain ⟨hmoved, hopen⟩ := of_decide_eq_true hP
  refine ⟨s, Trans.follow_runs hs fun _ _ _ => trivial, fun hap => ?_⟩
  obtain ⟨T, hT, ho⟩ := hap ⟨2, 0, .sink⟩ (by simp [hmoved])
  rw [show s.transports 0 = some T from hT, Option.map_some] at hopen
  cases (Option.some.inj hopen).symm.trans ho

end Adbd
