import Adbd.Runs
import Mathlib.Data.List.Perm.Subperm

/-!
# Opening the Endpoints

`init_functionfs` opens the three endpoints of FunctionFS and keeps their descriptors in the
handle; if something fails it closes what the handle has. It takes a descriptor for one that is
open if it is greater than zero, whereas its caller, `usb_ffs_open_thread`, takes the endpoints
for open if `control` is not negative. Zero is a descriptor the system may return. The handle
keeps its fields from one attempt to the next, and `usb_ffs_init` leaves `bulk_in` at zero.

After an attempt that seems to have succeeded the open thread registers a transport, and waits
until that is kicked and `usb_ffs_kick` has closed the endpoints.

## Main definitions

* `FfsHandle.initFunctionfs`: one attempt, with what it opens and closes.
* `FfsOpener.step`: the open thread, and the kicks of the transports it registers.
* `FfsCall.AllOrNothing`: an attempt opens all endpoints, or closes what it opened.
* `FfsAttempt.LosesZero`: an attempt fails after descriptor zero was returned.

## Main results

* `initFunctionfs_sound_iff`: what one attempt does.
* `ffs_opens_all_or_nothing_iff`: in which runs every attempt is as it should be.
-/

namespace Adbd

open Runs

/-- The descriptors of `struct usb_handle`. -/
structure FfsHandle where
  control : Int
  bulkOut : Int
  bulkIn : Int
deriving DecidableEq, Repr

/-- The handle `usb_ffs_init` builds: `calloc`, and `-1` for `control` and, twice, for
`bulk_out`. -/
def FfsHandle.init : FfsHandle := { control := -1, bulkOut := -1, bulkIn := 0 }

/-- How the system calls of an attempt come out: the descriptors that are opened, and whether
the two writes succeed. -/
structure FfsAttempt where
  control : Option Nat
  descriptors : Bool
  strings : Bool
  bulkOut : Option Nat
  bulkIn : Option Nat
deriving DecidableEq, Repr

/-- An attempt: the handle it leaves, and the descriptors it opened and closed. -/
structure FfsCall where
  handle : FfsHandle
  opened : List Nat
  closed : List Nat
deriving DecidableEq, Repr

namespace FfsHandle

/-- The descriptor of a field, if that is greater than zero. -/
def openOf (fd : Int) : List Nat := if 0 < fd then [fd.toNat] else []

/-- The value of a field after the clean-up. -/
def cleaned (fd : Int) : Int := if 0 < fd then -1 else fd

/-- The label `err`. -/
def err (h : FfsHandle) (opened : List Nat) : FfsCall where
  handle := ⟨cleaned h.control, cleaned h.bulkOut, cleaned h.bulkIn⟩
  opened := opened
  closed := openOf h.bulkIn ++ openOf h.bulkOut ++ openOf h.control

/-- `init_functionfs`. -/
def initFunctionfs (h : FfsHandle) (a : FfsAttempt) : FfsCall :=
  match a.control with
  | none => { h with control := -1 }.err []
  | some c =>
      let h := { h with control := c }
      if a.descriptors = false then h.err [c]
      else if a.strings = false then h.err [c]
      else
        match a.bulkOut with
        | none => { h with bulkOut := -1 }.err [c]
        | some o =>
            let h := { h with bulkOut := o }
            match a.bulkIn with
            | none => { h with bulkIn := -1 }.err [c, o]
            | some i => { handle := { h with bulkIn := i }, opened := [c, o, i], closed := [] }

end FfsHandle

/-- All three endpoints are open, under the descriptors the handle has. -/
def FfsCall.AllOpen (r : FfsCall) : Prop :=
  ∃ c o i : Nat, r.handle = ⟨c, o, i⟩ ∧ r.opened = [c, o, i] ∧ r.closed = []

/-- **All or nothing**: the endpoints are open, or `control` is `-1` and everything that was
opened is closed again, once. -/
def FfsCall.AllOrNothing (r : FfsCall) : Prop :=
  r.AllOpen ∨ r.handle.control = -1 ∧ r.closed.Perm r.opened

/-- **What an attempt should do**: it is all or nothing, `control` is a descriptor only if all
endpoints are open, and it closes only what it opened, once. -/
structure FfsCall.Sound (r : FfsCall) : Prop where
  allOrNothing : r.AllOrNothing
  ready : 0 ≤ r.handle.control → r.AllOpen
  owned : r.closed.Subperm r.opened

/-! ### The open thread -/

/-- The open thread: the handle, the descriptors that are open, and whether the transport it
registered last has not been kicked. -/
structure FfsOpener where
  handle : FfsHandle := .init
  held : List Nat := []
  registered : Bool := false
deriving DecidableEq, Repr

/-- An attempt, or the kick of the transport. -/
inductive OpenerAct
  | attempt (a : FfsAttempt)
  | kick
deriving DecidableEq, Repr

namespace FfsOpener

/-- What `usb_ffs_kick` closes; closing a negative number does nothing. -/
def kicks (s : FfsOpener) : List Nat :=
  ([s.handle.control, s.handle.bulkOut, s.handle.bulkIn].filter (0 ≤ ·)).map Int.toNat

/-- One turn of `usb_ffs_open_thread`, or a kick. The thread registers a transport if `control`
is not negative. -/
def step (s : FfsOpener) : OpenerAct → Option FfsOpener
  | .attempt a =>
      if s.registered then none
      else
        let r := s.handle.initFunctionfs a
        some {
          handle := r.handle
          held := (s.held ++ r.opened).diff r.closed
          registered := 0 ≤ r.handle.control }
  | .kick =>
      if s.registered then
        some { handle := ⟨-1, -1, -1⟩, held := s.held.diff s.kicks, registered := false }
      else none

/-- **What a step should do**: an attempt is as it should be, and so the thread registers a
transport only if all endpoints are open, and a kick closes only what is open, once. -/
def Sound (s : FfsOpener) : OpenerAct → Prop
  | .attempt a => (s.handle.initFunctionfs a).Sound
  | .kick => s.kicks.Subperm s.held

/-- Between the kick of a transport and the next registration nothing is open, and the handle
has no descriptor but a zero; otherwise it has the open ones. -/
def Inv (s : FfsOpener) : Prop :=
  if s.registered then ∃ c o i : Nat, s.handle = ⟨c, o, i⟩ ∧ s.held = [c, o, i]
  else s.handle.control = -1 ∧ s.handle.bulkOut ≤ 0 ∧ s.handle.bulkIn ≤ 0 ∧ s.held = []

end FfsOpener

/-- **An attempt loses descriptor zero**: it was returned for an endpoint, and something fails
after that. -/
def FfsAttempt.LosesZero (a : FfsAttempt) : Prop :=
  a.control = some 0 ∧ ¬(a.descriptors = true ∧ a.strings = true ∧ a.bulkOut ≠ none ∧
      a.bulkIn ≠ none) ∨
    a.control ≠ none ∧ a.descriptors = true ∧ a.strings = true ∧ a.bulkOut = some 0 ∧
      a.bulkIn = none

instance (a : FfsAttempt) : Decidable a.LosesZero := by
  unfold FfsAttempt.LosesZero; infer_instance

/-- A step does not lose descriptor zero. -/
def OpenerAct.KeepsZero : OpenerAct → Prop
  | .attempt a => ¬a.LosesZero
  | .kick => True

/-! ### One attempt -/

section Attempt

variable {h : FfsHandle} {a : FfsAttempt}

open FfsHandle

@[simp] theorem openOf_of_nonpos {fd : Int} (hfd : fd ≤ 0) : openOf fd = [] :=
  if_neg (by omega)

@[simp] theorem openOf_cast (n : Nat) : openOf (n : Int) = if n = 0 then [] else [n] := by
  by_cases hn : n = 0
  · simp [hn]
  · rw [openOf, if_pos (by omega), if_neg hn, Int.toNat_natCast]

theorem cleaned_cast (n : Nat) : cleaned (n : Int) = if n = 0 then 0 else -1 := by
  by_cases hn : n = 0
  · simp [hn, cleaned]
  · rw [cleaned, if_pos (by omega), if_neg hn]

theorem cleaned_nonpos (fd : Int) : cleaned fd ≤ 0 := by
  rw [cleaned]
  split <;> omega

/-- A clean-up after `control` was opened. -/
theorem err_control_iff (c : Nat) {o i : Int} (ho : o ≤ 0) (hi : i ≤ 0) :
    (err ⟨c, o, i⟩ [c]).Sound ↔ c ≠ 0 := by
  have hclosed : (err ⟨c, o, i⟩ [c]).closed = if c = 0 then [] else [c] := by
    simp [err, ho, hi]
  have hcontrol : (err ⟨c, o, i⟩ [c]).handle.control = if c = 0 then 0 else -1 :=
    cleaned_cast c
  by_cases hc : c = 0
  · rw [if_pos hc] at hcontrol
    refine iff_of_false (fun hs => ?_) (not_not.mpr hc)
    obtain ⟨c', o', i', -, hopened, -⟩ := hs.ready (Int.le_of_eq hcontrol.symm)
    cases hopened
  · rw [if_neg hc] at hclosed hcontrol
    refine iff_of_true ⟨.inr ⟨hcontrol, ?_⟩, fun h0 => absurd h0 (by omega), ?_⟩ hc
    · exact .of_eq hclosed
    · exact (List.Perm.of_eq hclosed).subperm

/-- A clean-up after `control` and `bulk_out` were opened. -/
theorem err_bulkOut_iff (c o : Nat) {i : Int} (hi : i ≤ 0) :
    (err ⟨c, o, i⟩ [c, o]).Sound ↔ c ≠ 0 ∧ o ≠ 0 := by
  have hclosed : (err ⟨c, o, i⟩ [c, o]).closed =
      (if o = 0 then [] else [o]) ++ if c = 0 then [] else [c] := by
    simp [err, hi]
  have hcontrol : (err ⟨c, o, i⟩ [c, o]).handle.control = if c = 0 then 0 else -1 :=
    cleaned_cast c
  by_cases hc : c = 0
  · rw [if_pos hc] at hcontrol
    refine iff_of_false (fun hs => ?_) fun h => h.1 hc
    obtain ⟨c', o', i', -, hopened, -⟩ := hs.ready (Int.le_of_eq hcontrol.symm)
    cases hopened
  rw [if_neg hc] at hclosed hcontrol
  by_cases ho : o = 0
  · rw [if_pos ho] at hclosed
    refine iff_of_false (fun hs => ?_) fun h => h.2 ho
    rcases hs.allOrNothing with ⟨c', o', i', -, hopened, -⟩ | ⟨-, hperm⟩
    · cases hopened
    · rw [hclosed] at hperm
      have hlen : 1 = 2 := hperm.length_eq
      cases hlen
  · rw [if_neg ho] at hclosed
    have hperm : (err ⟨c, o, i⟩ [c, o]).closed.Perm [c, o] := by
      rw [hclosed]
      exact List.Perm.swap c o []
    exact iff_of_true ⟨.inr ⟨hcontrol, hperm⟩, fun h0 => absurd h0 (by omega), hperm.subperm⟩
      ⟨hc, ho⟩

/-- **When an attempt is as it should be**, with no descriptor but a zero in the handle. -/
theorem initFunctionfs_sound_iff (ho : h.bulkOut ≤ 0) (hi : h.bulkIn ≤ 0) :
    (h.initFunctionfs a).Sound ↔ ¬a.LosesZero := by
  obtain ⟨control, descriptors, strings, bulkOut, bulkIn⟩ := a
  rw [initFunctionfs]
  cases control with
  | none =>
      have hclosed : (err { h with control := -1 } []).closed = [] := by simp [err, ho, hi]
      have hneg (h0 : (0 : Int) ≤ -1) : False := absurd h0 (by decide)
      refine iff_of_true ⟨.inr ⟨rfl, .of_eq hclosed⟩, fun h0 => (hneg h0).elim, ?_⟩ ?_
      · exact (List.Perm.of_eq hclosed).subperm
      · simp [FfsAttempt.LosesZero]
  | some c =>
      cases descriptors with
      | false => simpa [FfsAttempt.LosesZero] using err_control_iff c ho hi
      | true =>
      cases strings with
      | false => simpa [FfsAttempt.LosesZero] using err_control_iff c ho hi
      | true =>
      cases bulkOut with
      | none =>
          simpa [FfsAttempt.LosesZero] using err_control_iff c (o := -1) (by decide) hi
      | some o =>
      cases bulkIn with
      | none =>
          simpa [FfsAttempt.LosesZero, not_or] using
            err_bulkOut_iff c o (i := -1) (by decide)
      | some i =>
          have hall : FfsCall.AllOpen ⟨⟨c, o, i⟩, [c, o, i], []⟩ := ⟨c, o, i, rfl, rfl, rfl⟩
          refine iff_of_true ⟨.inl hall, fun _ => hall, List.nil_subperm⟩ ?_
          simp [FfsAttempt.LosesZero]

/-- The fields for the bulk endpoints after an attempt that failed. -/
theorem initFunctionfs_failed (hc : (h.initFunctionfs a).handle.control < 0) :
    (h.initFunctionfs a).handle.bulkOut ≤ 0 ∧ (h.initFunctionfs a).handle.bulkIn ≤ 0 := by
  have herr (h' : FfsHandle) (l : List Nat) :
      (h'.err l).handle.bulkOut ≤ 0 ∧ (h'.err l).handle.bulkIn ≤ 0 :=
    ⟨cleaned_nonpos _, cleaned_nonpos _⟩
  revert hc
  rw [initFunctionfs]
  dsimp only
  repeat' split
  all_goals first
    | exact fun _ => herr _ _
    | exact fun hc => absurd hc (by simp)

end Attempt

/-! ### Runs -/

namespace FfsOpener

variable {s s' : FfsOpener} {a : OpenerAct}

/-- **In the states of the invariant** a step is as it should be if it does not lose zero. -/
theorem Inv.sound_iff (h : s.Inv) (hs : s.step a = some s') : s.Sound a ↔ a.KeepsZero := by
  cases a with
  | attempt a =>
      rw [step] at hs
      split at hs
      · cases hs
      · next hr =>
        rw [Inv, if_neg hr] at h
        exact initFunctionfs_sound_iff h.2.1 h.2.2.1
  | kick =>
      rw [step] at hs
      split at hs
      · next hr =>
        rw [Inv, if_pos hr] at h
        obtain ⟨c, o, i, hh, hheld⟩ := h
        refine iff_of_true ?_ trivial
        rw [Sound, kicks, hh, hheld]
        exact List.Subperm.refl _
      · cases hs

/-- Nothing is left of a list without its elements. -/
theorem diff_same (l : List Nat) : l.diff l = [] := by
  induction l with
  | nil => rfl
  | cons n l ih => rw [List.diff_cons, List.erase_cons_head, ih]

/-- **A step that does not lose zero keeps the invariant.** -/
theorem Inv.step (h : s.Inv) (hk : a.KeepsZero) (hs : s.step a = some s') : s'.Inv := by
  cases a with
  | attempt a =>
      rw [FfsOpener.step] at hs
      split at hs
      · cases hs
      · next hr =>
        rw [Inv, if_neg hr] at h
        obtain ⟨-, ho, hi, hheld⟩ := h
        have hsound := (initFunctionfs_sound_iff ho hi).mpr hk
        obtain rfl := Option.some.inj hs
        rw [Inv, hheld]
        rcases hsound.allOrNothing with ⟨c, o, i, hh, hopened, hclosed⟩ | ⟨hcontrol, hperm⟩
        · simp [hh, hopened, hclosed]
        · have hlt : (s.handle.initFunctionfs a).handle.control < 0 := by omega
          have hbulk := initFunctionfs_failed hlt
          have hnone : ((s.handle.initFunctionfs a).opened.diff
              (s.handle.initFunctionfs a).closed) = [] := by
            rw [List.Perm.diff_left _ hperm, diff_same]
          simp [hcontrol, hbulk.1, hbulk.2, hnone]
  | kick =>
      rw [FfsOpener.step] at hs
      split at hs
      · next hr =>
        rw [Inv, if_pos hr] at h
        obtain ⟨c, o, i, hh, hheld⟩ := h
        obtain rfl := Option.some.inj hs
        have hkicks : s.kicks = [c, o, i] := by simp [kicks, hh]
        simp [Inv, hkicks, hheld]
      · cases hs

/-- **In which runs of the open thread every attempt is all or nothing**, a transport is
registered only with all endpoints open, and only open descriptors are closed: no attempt loses
descriptor zero. -/
theorem ffs_opens_all_or_nothing_iff (as : List OpenerAct) :
    AlongSteps step Sound {} as ↔ AlongSteps step (fun _ a => a.KeepsZero) {} as :=
  alongSteps_iff_of_invariant (I := Inv) (fun _ _ _ h hs => h.sound_iff hs)
    (fun _ _ _ h hk hs => h.step hk hs) ⟨rfl, by decide, by decide, rfl⟩

/-- The control endpoint is opened as descriptor zero, and the descriptors cannot be written:
zero stays open, and a transport is registered although the other endpoints are not open. -/
theorem ffs_registers_half_open :
    ¬AlongSteps step Sound {} [.attempt ⟨some 0, false, false, none, none⟩] ∧
      step {} (.attempt ⟨some 0, false, false, none, none⟩) =
        some { handle := ⟨0, -1, 0⟩, held := [0], registered := true } := by
  refine ⟨fun h => ?_, by decide⟩
  obtain ⟨c, o, i, hh, -⟩ := ((h _ rfl).1 : FfsCall.Sound _).ready (by decide)
  have hout : (-1 : Int) = o := congrArg FfsHandle.bulkOut hh
  omega

end FfsOpener

end Adbd
