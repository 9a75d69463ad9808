import Mathlib.Data.List.Nodup
import Adbd.Core
import Adbd.Runs

/-!
# The Descriptors of a Transport

`transport_registration_func` creates two pipes for a transport, and three pieces of code close
their four ends: the callback `t->close` on the thread that gives back the last reference,
`fdevent_remove` in the main loop, and `transport_registration_func` itself behind it. In
between, other threads open and close descriptors of their own, and the operating system hands
out every number that is not in use.

The model has the numbers, what each is open for, and whose record `fd_table` has for it.

## Main definitions

* `Descriptors`, `fdStep`: the descriptors of the daemon, and what its threads do with them.
* `ClosedOnce`: every end of a pipe is closed once, and no call closes the descriptor of
  another.
* `Descriptors.Repeats`: the steps that close `transport_read` again.

## Main results

* `closed_once_iff`: the runs in which every end is closed once.
* `closed_once_taken`: the removal of a transport closes an end twice, and the second time it
  may be the descriptor of another thread.
-/

namespace Adbd

/-! ### Descriptors -/

/-- The order in which the ends of the pipes are closed, here and there. -/
def PipeEnd.order : List PipeEnd := [.fdRead, .fdWrite, .transportRead, .transportWrite]

/-- What a descriptor is open for: an end of a pipe of a transport, or something else. -/
inductive FdUser
  | pipe (t : TId) (e : PipeEnd)
  | other (k : Nat)
deriving DecidableEq, Repr

/-- A call of `adb_close`: for whom it was made, and what the number was open for. -/
structure CloseCall where
  user : FdUser
  hit : Option FdUser
deriving DecidableEq, Repr

/-- Where a transport is in its life: its threads hold `ref_count` references; `t->close` has
the ends `rest` left to close; the removal is posted to the main loop; `fdevent_remove` is
done, and the main loop has the ends `rest` left to close; the transport is freed. -/
inductive FdPhase
  | running (refCount : Nat)
  | closing (rest : List PipeEnd)
  | posted
  | removing (rest : List PipeEnd)
  | freed
deriving DecidableEq, Repr

/-- A transport with its descriptors. -/
structure FdTransport where
  type : TransportType
  fd : PipeEnd → Nat
  phase : FdPhase

/-- Anything else that has a descriptor: a socket with its record in the event loop, or a
service thread. -/
structure FdOther where
  fd : Nat
  watched : Bool
deriving DecidableEq, Repr

/-- The descriptors of the daemon: what each number is open for, the owners of the records in
`fd_table`, the transports and all else, the transport that the main loop is removing, and the
calls of `adb_close`. -/
structure Descriptors where
  files : Nat → Option FdUser := fun _ => none
  fdTable : Nat → Option FdUser := fun _ => none
  transports : TId → Option FdTransport := fun _ => none
  nextT : TId := 0
  others : Nat → Option FdOther := fun _ => none
  nextOther : Nat := 0
  removal : Option TId := none
  calls : List CloseCall := []

namespace Descriptors

/-- `adb_close`, of a number that is or is not open. -/
def adbClose (s : Descriptors) (u : FdUser) (n : Nat) : Descriptors :=
  { s with files := Function.update s.files n none, calls := ⟨u, s.files n⟩ :: s.calls }

/-- `fdevent_register`. -/
def fdeventRegister (s : Descriptors) (u : FdUser) (n : Nat) : Descriptors :=
  { s with fdTable := Function.update s.fdTable n (some u) }

/-- `fdevent_unregister`. It stops the daemon if `fd_table` has another record. -/
def fdeventUnregister (s : Descriptors) (u : FdUser) (n : Nat) : Option Descriptors :=
  if s.fdTable n = some u then
    some (({ s with fdTable := Function.update s.fdTable n none } : Descriptors).adbClose u n)
  else none

/-- Overwrite a transport. -/
def setTransport (s : Descriptors) (t : TId) (T : FdTransport) : Descriptors :=
  { s with transports := Function.update s.transports t (some T) }

end Descriptors

/-- The ends that the callback `t->close` closes: `remote_close` of a TCP transport closes all,
that of a USB transport none. -/
def remoteClose : TransportType → List PipeEnd
  | .usb => []
  | .tcp => PipeEnd.order

/-- What the threads do: something else opens the number `n` or closes its own; the main loop
registers a transport, which gets the numbers `fd`; a thread of the transport gives back its
reference, and the last one closes the ends one by one and posts the removal; the main loop
removes the transport, and closes the ends one by one. -/
inductive FdAct
  | openOther (n : Nat) (watched : Bool)
  | closeOther (k : Nat)
  | register (type : TransportType) (fd : PipeEnd → Nat)
  | unref (t : TId)
  | close (t : TId)
  | remove (t : TId)
  | finish (t : TId)

/-- One step. Only the main loop registers transports and installs records, and it does not
while it removes a transport. -/
def fdStep (s : Descriptors) : FdAct → Option Descriptors
  | .openOther n watched =>
      if s.files n = none ∧ (watched = true → s.removal = none) then
        let u := FdUser.other s.nextOther
        let s' := { s with
          files := Function.update s.files n (some u)
          others := Function.update s.others s.nextOther (some ⟨n, watched⟩)
          nextOther := s.nextOther + 1 }
        some (if watched then s'.fdeventRegister u n else s')
      else none
  | .closeOther k =>
      match s.others k with
      | none => none
      | some o =>
          let s' := { s with others := Function.update s.others k none }
          if o.watched then s'.fdeventUnregister (.other k) o.fd
          else some (s'.adbClose (.other k) o.fd)
  | .register type fd =>
      if s.removal = none ∧ (PipeEnd.order.map fd).Nodup ∧
          ∀ e ∈ PipeEnd.order, s.files (fd e) = none then
        let t := s.nextT
        let s' := { s with
          files := fun n =>
            match PipeEnd.order.find? (fd · = n) with
            | some e => some (.pipe t e)
            | none => s.files n
          transports := Function.update s.transports t (some ⟨type, fd, .running 2⟩)
          nextT := t + 1 }
        some (s'.fdeventRegister (.pipe t .transportRead) (fd .transportRead))
      else none
  | .unref t =>
      match s.transports t with
      | some ⟨type, fd, .running r⟩ =>
          if r = 1 then some (s.setTransport t ⟨type, fd, .closing (remoteClose type)⟩)
          else some (s.setTransport t ⟨type, fd, .running (r - 1)⟩)
      | _ => none
  | .close t =>
      match s.transports t with
      | some ⟨type, fd, .closing (e :: rest)⟩ =>
          some ((s.adbClose (.pipe t e) (fd e)).setTransport t ⟨type, fd, .closing rest⟩)
      | some ⟨type, fd, .closing []⟩ => some (s.setTransport t ⟨type, fd, .posted⟩)
      | _ => none
  | .remove t =>
      match s.transports t with
      | some ⟨type, fd, .posted⟩ =>
          if s.removal = none then
            (s.fdeventUnregister (.pipe t .transportRead) (fd .transportRead)).map fun s' =>
              { s'.setTransport t ⟨type, fd, .removing PipeEnd.order⟩ with removal := some t }
          else none
      | _ => none
  | .finish t =>
      match s.transports t with
      | some ⟨type, fd, .removing (e :: rest)⟩ =>
          some ((s.adbClose (.pipe t e) (fd e)).setTransport t ⟨type, fd, .removing rest⟩)
      | some ⟨type, fd, .removing []⟩ =>
          some { s.setTransport t ⟨type, fd, .freed⟩ with removal := none }
      | _ => none

/-! ### Closing once -/

/-- How often `adb_close` was called for a descriptor. -/
def Descriptors.closes (s : Descriptors) (u : FdUser) : Nat := s.calls.countP (·.user = u)

/-- **The descriptors of every transport are closed once**: none more than once, all of them
when the transport is freed, and no call closes what a number is open for in the meantime. -/
structure ClosedOnce (s : Descriptors) : Prop where
  once : ∀ t e, s.closes (.pipe t e) ≤ 1
  all : ∀ t T, s.transports t = some T → T.phase = .freed → ∀ e, s.closes (.pipe t e) = 1
  own : ∀ c ∈ s.calls, ∀ u, c.hit = some u → u = c.user

/-- **The steps that close `transport_read` again**: the removal of a TCP transport, whose
callback has closed it, and behind `fdevent_remove` the third `adb_close` of a removal. -/
def Descriptors.Repeats (s : Descriptors) : FdAct → Prop
  | .remove t => ∃ T, s.transports t = some T ∧ T.type = .tcp
  | .finish t => ∃ T rest, s.transports t = some T ∧
      T.phase = .removing (.transportRead :: rest)
  | _ => False

/-! ### Ends that are still open -/

/-- The end is still open, where nothing is closed twice. -/
def FdTransport.Open (T : FdTransport) (e : PipeEnd) : Prop :=
  match T.phase with
  | .running _ => True
  | .closing rest => e ∈ rest ∨ T.type = .usb
  | .posted => T.type = .usb
  | .removing rest => e ∈ rest ∧ e ≠ .transportRead
  | .freed => False

/-- What is left to close, where nothing is closed twice. -/
def FdTransport.Ordered (T : FdTransport) : Prop :=
  match T.phase with
  | .running _ | .posted => True
  | .closing rest => rest <:+ remoteClose T.type
  | .removing rest => T.type = .usb ∧ rest <:+ PipeEnd.order ∧ .transportRead ∈ rest
  | .freed => False

/-- What the number `n` is open for. -/
def Descriptors.Has (s : Descriptors) (n : Nat) : FdUser → Prop
  | .pipe t e => ∃ T, s.transports t = some T ∧ T.Open e ∧ T.fd e = n
  | .other k => ∃ o, s.others k = some o ∧ o.fd = n

/-- **The ownership of the descriptors**: every open number belongs to one user, and every end
of a pipe was closed once unless it is still open. -/
structure FdInv (s : Descriptors) : Prop where
  fresh : ∀ t, s.nextT ≤ t → s.transports t = none
  freshOther : ∀ k, s.nextOther ≤ k → s.others k = none
  ordered : ∀ t T, s.transports t = some T → T.Ordered
  files : ∀ n u, s.files n = some u ↔ s.Has n u
  unclosed : ∀ t e, (∀ T, s.transports t = some T → T.Open e) → s.closes (.pipe t e) = 0
  closed : ∀ t T e, s.transports t = some T → ¬T.Open e → s.closes (.pipe t e) = 1
  own : ∀ c ∈ s.calls, ∀ u, c.hit = some u → u = c.user

theorem FdInv.closedOnce {s : Descriptors} (h : FdInv s) : ClosedOnce s where
  once := by
    intro t e
    by_cases hopen : ∀ T, s.transports t = some T → T.Open e
    · rw [h.unclosed t e hopen]
      exact Nat.zero_le _
    · obtain ⟨T, hT⟩ := not_forall.mp hopen
      obtain ⟨hT, hopen⟩ := Classical.not_imp.mp hT
      exact Nat.le_of_eq (h.closed t T e hT hopen)
  all := by
    intro t T hT hp
    have hord := h.ordered t T hT
    rw [FdTransport.Ordered, hp] at hord
    exact hord.elim
  own := h.own

section Steps

variable {s s' : Descriptors} {t : TId} {T T' : FdTransport} {e : PipeEnd}

@[simp] theorem Descriptors.setTransport_transports (s : Descriptors) (x : TId) :
    (s.setTransport t T').transports x = if x = t then some T' else s.transports x :=
  Function.update_apply ..

@[simp] theorem Descriptors.adbClose_transports (s : Descriptors) (u : FdUser) (n : Nat) :
    (s.adbClose u n).transports = s.transports := rfl

theorem Descriptors.closes_cons {c : CloseCall} (h : s'.calls = c :: s.calls) (u : FdUser) :
    s'.closes u = s.closes u + if c.user = u then 1 else 0 := by
  rw [closes, h, List.countP_cons]
  simp [closes]

/-- Neither `fd_table` nor what the main loop is doing matters. -/
theorem FdInv.table (h : FdInv s) (tb : Nat → Option FdUser) (r : Option TId) :
    FdInv { s with fdTable := tb, removal := r } :=
  ⟨h.fresh, h.freshOther, h.ordered, h.files, h.unclosed, h.closed, h.own⟩

/-- A number belongs to one user. -/
theorem FdInv.has_unique (h : FdInv s) {n : Nat} {u v : FdUser} (hu : s.Has n u)
    (hv : s.Has n v) : u = v :=
  Option.some.inj (((h.files n u).mpr hu).symm.trans ((h.files n v).mpr hv))

/-- A user has one number. -/
theorem Descriptors.Has.eq {n m : Nat} {u : FdUser} (h : s.Has n u) (h' : s.Has m u) :
    n = m := by
  cases u with
  | pipe t e =>
      obtain ⟨T, hT, -, rfl⟩ := h
      obtain ⟨T', hT', -, rfl⟩ := h'
      rw [Option.some.inj (hT.symm.trans hT')]
  | other k =>
      obtain ⟨o, ho, rfl⟩ := h
      obtain ⟨o', ho', rfl⟩ := h'
      rw [Option.some.inj (ho.symm.trans ho')]

/-- Closing the number of a user leaves the other users with theirs. -/
theorem FdInv.files_close (h : FdInv s) {n : Nat} {u : FdUser} (hown : s.Has n u)
    (hfiles : s'.files = Function.update s.files n none)
    (hhas : ∀ m v, s'.Has m v ↔ s.Has m v ∧ v ≠ u) (m : Nat) (v : FdUser) :
    s'.files m = some v ↔ s'.Has m v := by
  rw [hfiles, hhas]
  by_cases hm : m = n
  · subst hm
    rw [Function.update_self]
    exact iff_of_false (by simp) fun ⟨hv, hne⟩ => hne (h.has_unique hv hown)
  · rw [Function.update_of_ne hm, h.files]
    refine ⟨fun hv => ⟨hv, ?_⟩, And.left⟩
    rintro rfl
    exact hm (hv.eq hown)

/-- New users of numbers that were not in use. -/
theorem FdInv.files_open (h : FdInv s) (new : Nat → Option FdUser)
    (hnew : ∀ m v, new m = some v → s.files m = none)
    (hfiles : ∀ m, s'.files m = (new m).or (s.files m))
    (hhas : ∀ m v, s'.Has m v ↔ s.Has m v ∨ new m = some v) (m : Nat) (v : FdUser) :
    s'.files m = some v ↔ s'.Has m v := by
  rw [hfiles, hhas, ← h.files]
  cases hm : new m with
  | none => simp
  | some u => simp [hnew m u hm]

/-- And the call closes the user's own. -/
theorem FdInv.own_close (h : FdInv s) {n : Nat} {u : FdUser} (hown : s.Has n u) :
    ∀ c ∈ (s.adbClose u n).calls, ∀ v, c.hit = some v → v = c.user := by
  intro c hc v hv
  rcases List.mem_cons.mp hc with rfl | hc
  · exact Option.some.inj (hv.symm.trans ((h.files n u).mpr hown))
  · exact h.own c hc v hv

/-- A transport moves on. -/
theorem FdInv.move (h : FdInv s) (hT : s.transports t = some T) (hfd : T'.fd = T.fd)
    (hord : T'.Ordered) (hopen : ∀ e, T'.Open e ↔ T.Open e) : FdInv (s.setTransport t T') where
  fresh := by
    intro x hx
    have hne : x ≠ t := by
      rintro rfl
      simp [h.fresh x hx] at hT
    simpa [hne] using h.fresh x hx
  freshOther := h.freshOther
  ordered := by
    intro x X hX
    by_cases hx : x = t
    · obtain rfl : T' = X := by simpa [hx] using hX
      exact hord
    · exact h.ordered x X (by simpa [hx] using hX)
  files := by
    intro n u
    refine (h.files n u).trans ?_
    cases u with
    | other k => exact Iff.rfl
    | pipe x e =>
        by_cases hx : x = t
        · simp [Descriptors.Has, hx, hT, hopen, hfd]
        · simp [Descriptors.Has, hx]
  unclosed := by
    intro x e hx
    refine h.unclosed x e fun X hX => ?_
    by_cases hxt : x = t
    · obtain rfl : T = X := Option.some.inj (hT.symm.trans (hxt ▸ hX))
      exact (hopen e).mp (hx T' (by simp [hxt]))
    · exact hx X (by simpa [hxt] using hX)
  closed := by
    intro x X e hX hn
    by_cases hxt : x = t
    · obtain rfl : T' = X := by simpa [hxt] using hX
      exact hxt ▸ h.closed t T e hT fun ho => hn ((hopen e).mpr ho)
    · exact h.closed x X e (by simpa [hxt] using hX) hn
  own := h.own

/-- An end that is still open is closed. -/
theorem FdInv.closePipe (h : FdInv s) (hT : s.transports t = some T) (he : T.Open e)
    (hfd : T'.fd = T.fd) (hord : T'.Ordered) (hopen : ∀ e', T'.Open e' ↔ T.Open e' ∧ e' ≠ e) :
    FdInv ((s.adbClose (.pipe t e) (T.fd e)).setTransport t T') := by
  have hown : s.Has (T.fd e) (.pipe t e) := ⟨T, hT, he, rfl⟩
  have hcloses (u : FdUser) : ((s.adbClose (.pipe t e) (T.fd e)).setTransport t T').closes u =
      s.closes u + if FdUser.pipe t e = u then 1 else 0 :=
    Descriptors.closes_cons (c := ⟨.pipe t e, s.files (T.fd e)⟩) rfl u
  constructor
  case fresh =>
    intro x hx
    have hne : x ≠ t := by
      rintro rfl
      simp [h.fresh x hx] at hT
    simpa [hne] using h.fresh x hx
  case freshOther => exact h.freshOther
  case ordered =>
    intro x X hX
    by_cases hx : x = t
    · obtain rfl : T' = X := by simpa [hx] using hX
      exact hord
    · exact h.ordered x X (by simpa [hx] using hX)
  case files =>
    refine h.files_close hown rfl fun m v => ?_
    cases v with
    | other k => simp [Descriptors.Has, Descriptors.adbClose, Descriptors.setTransport]
    | pipe x e' =>
        by_cases hx : x = t
        · simp [Descriptors.Has, hx, hT, hopen, hfd]
          grind
        · simp [Descriptors.Has, hx]
  case unclosed =>
    intro x e' hx
    by_cases hxt : x = t
    · obtain ⟨ho, hne⟩ := (hopen e').mp (hx T' (by simp [hxt]))
      rw [hcloses, if_neg (by simp [hne.symm]), hxt]
      exact h.unclosed t e' fun X hX => Option.some.inj (hT.symm.trans hX) ▸ ho
    · rw [hcloses, if_neg (by simp [Ne.symm hxt])]
      exact h.unclosed x e' fun X hX => hx X (by simpa [hxt] using hX)
  case closed =>
    intro x X e' hX hn
    by_cases hxt : x = t
    · obtain rfl : T' = X := by simpa [hxt] using hX
      rw [hcloses, hxt]
      by_cases hee : e' = e
      · subst hee
        have hzero := h.unclosed t e' fun X hX => Option.some.inj (hT.symm.trans hX) ▸ he
        rw [hzero, if_pos rfl]
      · rw [if_neg (by simp [Ne.symm hee])]
        exact h.closed t T e' hT fun ho => hn ((hopen e').mpr ⟨ho, hee⟩)
    · rw [hcloses, if_neg (by simp [Ne.symm hxt])]
      exact h.closed x X e' (by simpa [hxt] using hX) hn
  case own => exact h.own_close hown

/-- Something else opens a number that is not in use. -/
theorem FdInv.openOther (h : FdInv s) {n : Nat} (hn : s.files n = none) (watched : Bool) :
    FdInv { s with
      files := Function.update s.files n (some (.other s.nextOther))
      others := Function.update s.others s.nextOther (some ⟨n, watched⟩)
      nextOther := s.nextOther + 1 } where
  fresh := h.fresh
  freshOther := by
    intro k hk
    have hlt : s.nextOther < k := hk
    exact (Function.update_of_ne (Nat.ne_of_gt hlt) ..).trans
      (h.freshOther k (Nat.le_of_lt hlt))
  ordered := h.ordered
  files := by
    have hnone : s.others s.nextOther = none := h.freshOther _ (Nat.le_refl _)
    refine h.files_open (fun m => if m = n then some (.other s.nextOther) else none)
      (fun m v hm => ?_) (fun m => ?_) fun m v => ?_
    · obtain rfl : m = n := by
        by_contra hne
        simp [hne] at hm
      exact hn
    · by_cases hm : m = n
      · simp [hm]
      · simp [hm]
    · cases v with
      | pipe x e => simp [Descriptors.Has]
      | other k =>
          by_cases hk : k = s.nextOther
          · subst hk
            simp [Descriptors.Has, hnone, eq_comm]
          · simp [Descriptors.Has, hk, Ne.symm hk]
  unclosed := h.unclosed
  closed := h.closed
  own := h.own

/-- Something else closes its own. -/
theorem FdInv.closeOther (h : FdInv s) {k : Nat} {o : FdOther} (ho : s.others k = some o) :
    FdInv (({ s with others := Function.update s.others k none } : Descriptors).adbClose
      (.other k) o.fd) where
  fresh := h.fresh
  freshOther := by
    intro x hx
    by_cases hxk : x = k
    · simp [Descriptors.adbClose, hxk]
    · simpa [Descriptors.adbClose, hxk] using h.freshOther x hx
  ordered := h.ordered
  files := by
    refine h.files_close (u := .other k) ⟨o, ho, rfl⟩ rfl fun m v => ?_
    cases v with
    | pipe x e => simp [Descriptors.Has, Descriptors.adbClose]
    | other j =>
        by_cases hj : j = k
        · simp [Descriptors.Has, Descriptors.adbClose, hj]
        · simp [Descriptors.Has, Descriptors.adbClose, hj]
  unclosed := by
    intro x e hx
    rw [Descriptors.closes_cons (s := s) rfl, if_neg (by simp)]
    exact h.unclosed x e hx
  closed := by
    intro x X e hX hn
    rw [Descriptors.closes_cons (s := s) rfl, if_neg (by simp)]
    exact h.closed x X e hX hn
  own := h.own_close (u := .other k) ⟨o, ho, rfl⟩

/-- The main loop registers a transport. -/
theorem FdInv.register (h : FdInv s) {type : TransportType} {fd : PipeEnd → Nat}
    (hnodup : (PipeEnd.order.map fd).Nodup) (hn : ∀ e ∈ PipeEnd.order, s.files (fd e) = none) :
    FdInv { s with
      files := fun n =>
        match PipeEnd.order.find? (fd · = n) with
        | some e => some (.pipe s.nextT e)
        | none => s.files n
      transports := Function.update s.transports s.nextT (some ⟨type, fd, .running 2⟩)
      nextT := s.nextT + 1 } where
  fresh := by
    intro x hx
    have hlt : s.nextT < x := hx
    exact (Function.update_of_ne (Nat.ne_of_gt hlt) ..).trans (h.fresh x (Nat.le_of_lt hlt))
  freshOther := h.freshOther
  ordered := by
    intro x X hX
    by_cases hx : x = s.nextT
    · obtain rfl : ⟨type, fd, .running 2⟩ = X := by simpa [hx] using hX
      trivial
    · exact h.ordered x X (by simpa [hx] using hX)
  files := by
    have hnone : s.transports s.nextT = none := h.fresh _ (Nat.le_refl _)
    have hmem (e : PipeEnd) : e ∈ PipeEnd.order := by cases e <;> simp [PipeEnd.order]
    refine h.files_open
      (fun m => (PipeEnd.order.find? (fd · = m)).map (.pipe s.nextT)) (fun m v hm => ?_)
      (fun m => ?_) fun m v => ?_
    · obtain ⟨e, he, -⟩ := Option.map_eq_some_iff.mp hm
      obtain rfl : fd e = m := by simpa using List.find?_some he
      exact hn e (hmem e)
    · dsimp only
      cases PipeEnd.order.find? (fd · = m) <;> rfl
    · have hfind (e : PipeEnd) : PipeEnd.order.find? (fd · = m) = some e ↔ fd e = m := by
        constructor
        · intro hf
          simpa using List.find?_some hf
        · intro he
          have hsome : (PipeEnd.order.find? (fd · = m)).isSome :=
            List.find?_isSome.mpr ⟨e, hmem e, by simpa using he⟩
          obtain ⟨e', he'⟩ := Option.isSome_iff_exists.mp hsome
          have hfd : fd e' = fd e := Eq.trans (by simpa using List.find?_some he') he.symm
          rw [he', List.inj_on_of_nodup_map hnodup (hmem e') (hmem e) hfd]
      cases v with
      | other k => simp [Descriptors.Has]
      | pipe x e =>
          by_cases hx : x = s.nextT
          · subst hx
            simp [Descriptors.Has, hnone, hfind, FdTransport.Open]
          · simp [Descriptors.Has, hx, Ne.symm hx]
  unclosed := by
    intro x e hx
    refine h.unclosed x e fun X hX => ?_
    have hne : x ≠ s.nextT := by
      rintro rfl
      simp [h.fresh _ (Nat.le_refl _)] at hX
    exact hx X (by simpa [hne] using hX)
  closed := by
    intro x X e hX hno
    by_cases hx : x = s.nextT
    · obtain rfl : ⟨type, fd, .running 2⟩ = X := by simpa [hx] using hX
      exact absurd trivial hno
    · exact h.closed x X e (by simpa [hx] using hX) hno
  own := h.own

/-- No end is closed twice in the order. -/
theorem PipeEnd.not_mem_of_suffix {rest : List PipeEnd} (h : e :: rest <:+ PipeEnd.order) :
    e ∉ rest := by
  have hnodup : PipeEnd.order.Nodup := by decide
  exact (List.nodup_cons.mp (hnodup.sublist h.sublist)).1

/-- The ends that `t->close` closes, one after the other. -/
theorem FdInv.closing (h : FdInv s) {type : TransportType} {fd : PipeEnd → Nat}
    {rest : List PipeEnd} (hT : s.transports t = some ⟨type, fd, .closing (e :: rest)⟩) :
    FdInv ((s.adbClose (.pipe t e) (fd e)).setTransport t ⟨type, fd, .closing rest⟩) := by
  have hord : e :: rest <:+ remoteClose type := h.ordered t _ hT
  cases type with
  | usb => simp [remoteClose] at hord
  | tcp =>
      have hnot := PipeEnd.not_mem_of_suffix hord
      refine h.closePipe hT (.inl List.mem_cons_self) rfl
        ((List.suffix_cons e rest).trans hord)
        fun e' => ?_
      simp only [FdTransport.Open, List.mem_cons, reduceCtorEq, or_false]
      grind

/-- Those that the main loop closes behind `fdevent_remove`, but for `transport_read`. -/
theorem FdInv.removing (h : FdInv s) {type : TransportType} {fd : PipeEnd → Nat}
    {rest : List PipeEnd} (hT : s.transports t = some ⟨type, fd, .removing (e :: rest)⟩)
    (hne : e ≠ .transportRead) :
    FdInv ((s.adbClose (.pipe t e) (fd e)).setTransport t ⟨type, fd, .removing rest⟩) := by
  obtain ⟨htype, hord, hmem⟩ := h.ordered t _ hT
  have hnot := PipeEnd.not_mem_of_suffix hord
  have hrest : .transportRead ∈ rest := by
    rcases List.mem_cons.mp hmem with he | he
    · exact absurd he.symm hne
    · exact he
  refine h.closePipe hT ⟨List.mem_cons_self, hne⟩ rfl
    ⟨htype, (List.suffix_cons e rest).trans hord, hrest⟩ fun e' => ?_
  simp only [FdTransport.Open, List.mem_cons]
  grind

/-- **A step that does not repeat a close keeps the ownership.** -/
theorem FdInv.step (h : FdInv s) {a : FdAct} (hgood : ¬s.Repeats a)
    (hs : fdStep s a = some s') :
    FdInv s' := by
  cases a with
  | openOther n watched =>
      rw [fdStep] at hs
      split at hs
      · next hif =>
        obtain rfl := Option.some.inj hs
        have hopen := h.openOther hif.1 watched
        split
        · exact hopen.table _ _
        · exact hopen
      · cases hs
  | closeOther k =>
      rw [fdStep] at hs
      split at hs
      · cases hs
      · next o ho =>
        have hclose := h.closeOther ho
        dsimp only at hs
        split at hs
        · rw [Descriptors.fdeventUnregister] at hs
          split at hs
          · obtain rfl := Option.some.inj hs
            exact hclose.table _ _
          · cases hs
        · obtain rfl := Option.some.inj hs
          exact hclose
  | register type fd =>
      rw [fdStep] at hs
      split at hs
      · next hif =>
        obtain rfl := Option.some.inj hs
        exact (h.register hif.2.1 hif.2.2).table _ _
      · cases hs
  | unref t =>
      rw [fdStep] at hs
      split at hs
      · next type fd r hT =>
        split at hs
        · obtain rfl := Option.some.inj hs
          refine h.move hT rfl (List.suffix_refl _) fun e => iff_of_true ?_ trivial
          cases type with
          | usb => exact .inr rfl
          | tcp => cases e <;> simp [FdTransport.Open, remoteClose, PipeEnd.order]
        · obtain rfl := Option.some.inj hs
          exact h.move hT rfl trivial fun e => Iff.rfl
      · cases hs
  | close t =>
      rw [fdStep] at hs
      split at hs
      · next type fd e rest hT =>
        obtain rfl := Option.some.inj hs
        exact h.closing hT
      · next type fd hT =>
        obtain rfl := Option.some.inj hs
        refine h.move hT rfl trivial fun e => ?_
        simp [FdTransport.Open]
      · cases hs
  | remove t =>
      rw [fdStep] at hs
      split at hs
      · next type fd hT =>
        have htype : type = .usb := by
          cases type with
          | usb => rfl
          | tcp => exact absurd ⟨_, hT, rfl⟩ hgood
        subst htype
        split at hs
        · obtain ⟨s₁, hs₁, rfl⟩ := Option.map_eq_some_iff.mp hs
          rw [Descriptors.fdeventUnregister] at hs₁
          split at hs₁
          · obtain rfl := Option.some.inj hs₁
            have hclose : FdInv ((s.adbClose (.pipe t .transportRead)
                (fd .transportRead)).setTransport t ⟨.usb, fd, .removing PipeEnd.order⟩) := by
              refine h.closePipe hT rfl rfl ⟨rfl, List.suffix_refl _, by simp [PipeEnd.order]⟩
                fun e' => ?_
              cases e' <;> simp [FdTransport.Open, PipeEnd.order]
            exact hclose.table _ _
          · cases hs₁
        · cases hs
      · cases hs
  | finish t =>
      rw [fdStep] at hs
      split at hs
      · next type fd e rest hT =>
        obtain rfl := Option.some.inj hs
        refine h.removing hT ?_
        rintro rfl
        exact hgood ⟨_, rest, hT, rfl⟩
      · next type fd hT =>
        obtain ⟨-, -, hmem⟩ := h.ordered t _ hT
        cases hmem
      · cases hs

/-- **A step that repeats a close** closes `transport_read` for the second time. -/
theorem FdInv.repeats (h : FdInv s) {a : FdAct} (hbad : s.Repeats a)
    (hs : fdStep s a = some s') :
    ¬ClosedOnce s' := by
  intro honce
  cases a with
  | remove t =>
      obtain ⟨T, hT, htype⟩ := hbad
      have hle := honce.once t .transportRead
      rw [fdStep] at hs
      split at hs
      · next type fd hT' =>
        obtain rfl : T = _ := Option.some.inj (hT.symm.trans hT')
        have hone := h.closed t _ .transportRead hT fun ho => by
          rw [FdTransport.Open, htype] at ho
          cases ho
        split at hs
        · obtain ⟨s₁, hs₁, rfl⟩ := Option.map_eq_some_iff.mp hs
          rw [Descriptors.fdeventUnregister] at hs₁
          split at hs₁
          · obtain rfl := Option.some.inj hs₁
            rw [Descriptors.closes_cons (s := s) rfl, if_pos rfl] at hle
            omega
          · cases hs₁
        · cases hs
      · cases hs
  | finish t =>
      obtain ⟨⟨type, fd, phase⟩, rest, hT, hp⟩ := hbad
      obtain rfl : phase = _ := hp
      have hle := honce.once t .transportRead
      rw [fdStep, hT] at hs
      obtain rfl := Option.some.inj hs
      rw [Descriptors.closes_cons (s := s) rfl, if_pos rfl] at hle
      have hone := h.closed t _ .transportRead hT fun ho => ho.2 rfl
      omega
  | openOther | closeOther | register | unref | close => exact hbad

/-! ### Runs -/

theorem FdInv.init : FdInv {} where
  fresh := fun _ _ => rfl
  freshOther := fun _ _ => rfl
  ordered := fun _ _ h => by cases h
  files := by
    intro n u
    cases u <;> simp [Descriptors.Has]
  unclosed := fun _ _ _ => rfl
  closed := fun _ _ _ h => by cases h
  own := fun _ h => by cases h

end Steps

/-- **The runs in which every descriptor of a transport is closed once** are those that do not
get to the second close of `transport_read`: no TCP transport is removed, and of a USB
transport no more than `fd_read` and `fd_write` are closed behind `fdevent_remove`. In
particular no transport is ever freed in them. -/
theorem closed_once_iff (as : List FdAct) :
    (Runs.Along fdStep ClosedOnce {} as ↔
      Runs.AlongSteps fdStep (fun s a => ¬s.Repeats a) {} as) ∧
    ∀ s t T, as.foldlM fdStep {} = some s → s.transports t = some T → T.phase = .freed →
      ¬Runs.Along fdStep ClosedOnce {} as := by
  have hiff : Runs.Along fdStep ClosedOnce {} as ↔
      Runs.AlongSteps fdStep (fun s a => ¬s.Repeats a) {} as :=
    Runs.along_iff_of_invariant (fun _ h => h.closedOnce)
      (fun _ _ _ h _ hgood hs => h.step hgood hs)
      (fun _ _ _ h _ hbad hs => h.repeats (not_not.mp hbad) hs) FdInv.init Runs.alongSteps_true
  refine ⟨hiff, fun s t T hrun hT hp hall => ?_⟩
  have hinv : FdInv s := (Runs.along_of_invariant (fun _ h => h)
    (fun _ _ _ h hgood hs => FdInv.step h hgood hs) FdInv.init (hiff.mp hall)).finish hrun
  have hord := hinv.ordered t T hT
  rw [FdTransport.Ordered, hp] at hord
  exact hord

/-- The numbers of the first transport. -/
def firstFds : PipeEnd → Nat
  | .transportRead => 3
  | .fdWrite => 4
  | .fdRead => 5
  | .transportWrite => 6

/-- A USB transport comes and goes. A service thread opens a file when `fdevent_remove` has
closed `transport_read`, and gets its number. -/
def usbLife : List FdAct :=
  [.register .usb firstFds, .unref 0, .unref 0, .close 0, .remove 0, .openOther 3 false,
    .finish 0, .finish 0, .finish 0]

/-- **The removal closes `transport_read` twice**, and the second time it closes the file of
the service thread. -/
theorem closed_once_taken : ∃ s, usbLife.foldlM fdStep {} = some s ∧
    s.closes (.pipe 0 .transportRead) = 2 ∧
      ⟨.pipe 0 .transportRead, some (.other 0)⟩ ∈ s.calls ∧
        ¬Runs.Along fdStep ClosedOnce {} usbLife := by
  have hany : (usbLife.foldlM fdStep {}).any (fun s => s.closes (.pipe 0 .transportRead) = 2 ∧
      ⟨.pipe 0 .transportRead, some (.other 0)⟩ ∈ s.calls) = true := by decide +kernel
  obtain ⟨s, hs, h⟩ := (Option.any_eq_true _ _).mp hany
  obtain ⟨htwo, hhit⟩ := of_decide_eq_true h
  refine ⟨s, hs, htwo, hhit, fun hall => ?_⟩
  have hle := (hall.finish hs).once 0 .transportRead
  omega

end Adbd
