import Adbd.Handlers

/-!
# Choosing a Transport

`acquire_one_transport` walks the list of transports for the one that a request names, by
serial or by type. Transports it may not open are skipped. A second match ends the walk: the
request is ambiguous. Only then, on the one transport that is left, is looked at whether it is
offline, although offline devices are to be ignored, "they are either being born or dying".

`Adbd.acquireOneTransport` is the call the smart socket makes, for any transport; here is the
function with all its parameters.

## Main definitions

* `NamedTransport`: a transport with what it can be asked for by.
* `qualMatch`, `acquireOneTransport`: the source.
* `Selects`: what the caller is to get.

## Main results

* `qualMatch_iff`: a qualifier matches what spells it out.
* `acquireScan_result`: the walk finds the only match.
* `acquire_selects_iff`: the caller gets what it is to get unless a match that is offline
  stands beside the only usable one.
* `acquireOneTransport_any`: the call of the smart socket.
-/

namespace Adbd.Acquire

open Program

/-- `transport_type`, as it is asked for. -/
inductive RequestType
  | usb
  | tcp
  | any
  | host
deriving DecidableEq, Repr

/-- The texts `*error_out` is set to. -/
inductive AcquireError
  | deviceNotFound
  | insufficientPermissions
  | moreThanOneDevice
  | moreThanOneEmulator
  | moreThanOneDeviceAndEmulator
  | deviceOffline
  | invalidDeviceState
deriving DecidableEq, Repr

def AcquireError.text : AcquireError → String
  | .deviceNotFound => "device not found"
  | .insufficientPermissions => "insufficient permissions for device"
  | .moreThanOneDevice => "more than one device"
  | .moreThanOneEmulator => "more than one emulator"
  | .moreThanOneDeviceAndEmulator => "more than one device and emulator"
  | .deviceOffline => "device offline"
  | .invalidDeviceState => "invalid device state"

/-- The fields of `struct atransport` with those a request can name. Strings are the bytes
before their NUL. -/
structure NamedTransport extends ATransport where
  serial : Option (List UInt8) := none
  devpath : Option (List UInt8) := none
deriving DecidableEq, Repr

/-- `qual_char_is_invalid`. -/
def qualCharIsInvalid (ch : UInt8) : Bool :=
  !((65 ≤ ch && ch ≤ 90) || (97 ≤ ch && ch ≤ 122) || (48 ≤ ch && ch ≤ 57))

/-- Compare a string with the characters of another, `*p++ != *to_test++`: what is left of the
first. The NUL at its end is none of these characters. -/
def passOver : List UInt8 → List UInt8 → Option (List UInt8)
  | toTest, [] => some toTest
  | [], _ :: _ => none
  | x :: toTest, ch :: p => if ch = x then passOver toTest p else none

/-- The character of a qualifier that is compared. -/
def sanitizeQual (sanitize : Bool) (ch : UInt8) : UInt8 :=
  if sanitize && qualCharIsInvalid ch then 95 else ch

/-- `qual_match`. -/
def qualMatch (toTest : Option (List UInt8)) (pre : Option (List UInt8))
    (qual : Option (List UInt8)) (sanitize : Bool) : Bool :=
  match toTest with
  | none | some [] => qual = none ∨ qual = some []
  | some test =>
      match qual with
      | none => false
      | some qual =>
          match passOver test (pre.getD []) with
          | none => false
          | some rest => passOver rest (qual.map (sanitizeQual sanitize)) = some []

/-- The transport has the given serial, device path, product, model or device. -/
def NamedTransport.named (T : NamedTransport) (serial : List UInt8) : Bool :=
  T.serial = some serial || T.devpath = some serial ||
    qualMatch (some serial) (some (ascii "product:".toList)) T.quals.product false ||
    qualMatch (some serial) (some (ascii "model:".toList)) T.quals.model true ||
    qualMatch (some serial) (some (ascii "device:".toList)) T.quals.device false

/-- The transport matches a request. -/
def NamedTransport.requested (T : NamedTransport) (ttype : RequestType) :
    Option (List UInt8) → Bool
  | some serial => T.named serial
  | none =>
      match ttype with
      | .usb => T.type = .usb
      | .tcp => T.type = .tcp
      | .any => true
      | .host => false

/-- What `*error_out` is set to at the second match. -/
def AcquireError.ambiguous (ttype : RequestType) : Option (List UInt8) → AcquireError
  | some _ => .moreThanOneDevice
  | none =>
      match ttype with
      | .tcp => .moreThanOneEmulator
      | .any => .moreThanOneDeviceAndEmulator
      | _ => .moreThanOneDevice

/-- The variables `result`, `ambiguous` and `*error_out`. -/
structure Scan where
  result : Option (TId × NamedTransport)
  ambiguous : Bool
  error : AcquireError

variable {ttype : RequestType} {serial : Option (List UInt8)} {l : List (TId × NamedTransport)}

/-- The loop of `acquire_one_transport` over the rest of the list. -/
def acquireScan (ttype : RequestType) (serial : Option (List UInt8)) :
    List (TId × NamedTransport) → Option (TId × NamedTransport) → AcquireError → Scan
  | [], result, err => ⟨result, false, err⟩
  | e :: l, result, err =>
      if e.2.connectionState = .noperm then
        acquireScan ttype serial l result .insufficientPermissions
      else if e.2.requested ttype serial then
        match result with
        | some _ => ⟨none, true, .ambiguous ttype serial⟩
        | none => acquireScan ttype serial l (some e) err
      else acquireScan ttype serial l result err

/-- One pass from `retry:` on: the result, `*error_out` and whether the code sleeps and goes
back. `CS_ANY` is no state. -/
def acquirePass (state : Option ConnState) (ttype : RequestType) (serial : Option (List UInt8))
    (l : List (TId × NamedTransport)) :
    Option (TId × NamedTransport) × Option AcquireError × Bool :=
  let scan := acquireScan ttype serial l none .deviceNotFound
  let again := decide (state ≠ none) && (serial.isSome || !scan.ambiguous)
  match scan.result with
  | none => (none, some scan.error, again)
  | some e =>
      if e.2.connectionState = .offline then (none, some .deviceOffline, again)
      else if state ≠ none ∧ state ≠ some e.2.connectionState then
        (none, some .invalidDeviceState, again)
      else (some e, none, false)

/-- `acquire_one_transport`, with the list of transports as each pass finds it; nothing while
the code would go on waiting. -/
def acquireOneTransport (state : Option ConnState) (ttype : RequestType)
    (serial : Option (List UInt8)) : List (List (TId × NamedTransport)) →
      Option (Option (TId × NamedTransport) × Option AcquireError)
  | [] => none
  | l :: ls =>
      match acquirePass state ttype serial l with
      | (_, _, true) => acquireOneTransport state ttype serial ls
      | (result, err, false) => some (result, err)

/-! ### Qualifiers -/

theorem passOver_eq_some {test p rest : List UInt8} :
    passOver test p = some rest ↔ test = p ++ rest := by
  induction p generalizing test with
  | nil => simp [passOver]
  | cons ch p ih =>
      cases test with
      | nil => simp [passOver]
      | cons x test =>
          by_cases hx : ch = x
          · simp [passOver, hx, ih]
          · simp [passOver, hx, Ne.symm hx]

/-- **A qualifier matches what spells it out**: the prefix and the characters of the qualifier.
Nothing is spelled by an empty string but an empty or a missing qualifier. -/
theorem qualMatch_iff {test pre : List UInt8} {qual : Option (List UInt8)} {sanitize : Bool} :
    qualMatch (some test) (some pre) qual sanitize = true ↔
      if test = [] then qual = none ∨ qual = some []
      else ∃ q, qual = some q ∧ test = pre ++ q.map (sanitizeQual sanitize) := by
  cases test with
  | nil => simp [qualMatch]
  | cons x test =>
      cases qual with
      | none => simp [qualMatch]
      | some q =>
          cases hp : passOver (x :: test) pre with
          | none =>
              simp only [qualMatch, Option.getD_some, hp, Bool.false_eq_true, false_iff,
                reduceCtorEq, if_false]
              rintro ⟨q', -, ht⟩
              rw [passOver_eq_some.mpr ht] at hp
              cases hp
          | some rest =>
              have hq : qualMatch (some (x :: test)) (some pre) (some q) sanitize =
                  decide (passOver rest (q.map (sanitizeQual sanitize)) = some []) := by
                simp [qualMatch, hp]
              rw [hq, decide_eq_true_iff, passOver_eq_some, if_neg (List.cons_ne_nil x test),
                passOver_eq_some.mp hp]
              simp

/-! ### What the walk finds -/

/-- A transport that the walk counts. -/
def Counts (ttype : RequestType) (serial : Option (List UInt8)) (e : TId × NamedTransport) :
    Bool :=
  decide (e.2.connectionState ≠ .noperm) && e.2.requested ttype serial

/-- A transport that the request is for and that can be used. -/
def Usable (ttype : RequestType) (serial : Option (List UInt8)) (e : TId × NamedTransport) :
    Bool :=
  e.2.requested ttype serial && decide (e.2.connectionState ≠ .noperm) &&
    decide (e.2.connectionState ≠ .offline)

/-- The only element of a list. -/
def only {α : Type} : List α → Option α
  | [e] => some e
  | _ => none

theorem only_eq_some {α : Type} {l : List α} {e : α} : only l = some e ↔ l = [e] := by
  match l with
  | [] => simp [only]
  | [_] => simp [only]
  | _ :: _ :: _ => simp [only]

theorem acquireScan_from (result : Option (TId × NamedTransport)) (err : AcquireError) :
    (acquireScan ttype serial l result err).result =
      only (result.toList ++ l.filter (Counts ttype serial)) := by
  induction l generalizing result err with
  | nil => cases result <;> rfl
  | cons e l ih =>
      by_cases hp : e.2.connectionState = .noperm
      · simp only [acquireScan, hp, if_true, ih]
        rw [List.filter_cons_of_neg (by simp [Counts, hp])]
      · by_cases hm : e.2.requested ttype serial = true
        · rw [List.filter_cons_of_pos (by simp [Counts, hp, hm])]
          cases result with
          | none => simpa [acquireScan, hp, hm] using ih (some e) err
          | some r => simp [acquireScan, hp, hm, only]
        · simp only [acquireScan, hp, hm, Bool.false_eq_true, if_false, ih]
          rw [List.filter_cons_of_neg (by simp [Counts, hm])]

/-- **The walk finds the only match** among the transports that may be opened. -/
theorem acquireScan_result (err : AcquireError) :
    (acquireScan ttype serial l none err).result = only (l.filter (Counts ttype serial)) :=
  acquireScan_from none err

/-- The usable matches are the counted ones that are not offline. -/
theorem filter_usable : l.filter (Usable ttype serial) =
    (l.filter (Counts ttype serial)).filter fun e =>
      decide (e.2.connectionState ≠ .offline) := by
  rw [List.filter_filter]
  refine List.filter_congr fun e _ => ?_
  simp only [Usable, Counts]
  cases e.2.requested ttype serial <;> cases decide (e.2.connectionState ≠ .noperm) <;>
    cases decide (e.2.connectionState ≠ .offline) <;> rfl

/-- What the only counted match is good for. -/
def taken (m : List (TId × NamedTransport)) : Option (TId × NamedTransport) :=
  (only m).filter fun e => decide (e.2.connectionState ≠ .offline)

/-- With `CS_ANY` there is one pass, which takes the only counted match unless it is
offline. -/
theorem acquireOneTransport_csAny (ttype : RequestType) (serial : Option (List UInt8))
    (l : List (TId × NamedTransport)) (ls : List (List (TId × NamedTransport))) :
    ∃ out, acquireOneTransport none ttype serial (l :: ls) = some out ∧
      out.1 = taken (l.filter (Counts ttype serial)) ∧ (out.2 = none ↔ out.1 ≠ none) := by
  simp only [acquireOneTransport, acquirePass, acquireScan_result, taken]
  cases only (l.filter (Counts ttype serial)) with
  | none => exact ⟨_, rfl, rfl, by simp⟩
  | some e =>
      by_cases hoff : e.2.connectionState = .offline
      · simp [hoff, Option.filter]
      · simp [hoff, Option.filter]

/-! ### What the caller is to get -/

/-- **The request selects the unique usable transport**: that is the result if there is exactly
one, else there is none, and there is an error text exactly if there is no result. -/
structure Selects (ttype : RequestType) (serial : Option (List UInt8))
    (l : List (TId × NamedTransport))
    (out : Option (TId × NamedTransport) × Option AcquireError) : Prop where
  unique : ∀ e, l.filter (Usable ttype serial) = [e] → out.1 = some e
  otherwise : (∀ e, l.filter (Usable ttype serial) ≠ [e]) → out.1 = none
  error : out.2 = none ↔ out.1 ≠ none

/-- A match that is offline stands beside the only usable one. -/
def OfflineBeside (ttype : RequestType) (serial : Option (List UInt8))
    (l : List (TId × NamedTransport)) : Prop :=
  (∃ e, l.filter (Usable ttype serial) = [e]) ∧
    ∃ x ∈ l, x.2.requested ttype serial = true ∧ x.2.connectionState = .offline

/-- **The caller gets what it is to get** exactly if no match that is offline stands beside the
only usable one, whatever the list is at later passes. -/
theorem acquire_selects_iff (ls : List (List (TId × NamedTransport))) :
    (∃ out, acquireOneTransport none ttype serial (l :: ls) = some out ∧
      Selects ttype serial l out) ↔ ¬OfflineBeside ttype serial l := by
  obtain ⟨out, hout, hres, herr⟩ := acquireOneTransport_csAny ttype serial l ls
  set m := l.filter (Counts ttype serial) with hm
  have hcount {x} (hx : x ∈ l) (hr : x.2.requested ttype serial = true)
      (hoff : x.2.connectionState = .offline) : x ∈ m :=
    List.mem_filter.mpr ⟨hx, by simp [Counts, hr, hoff]⟩
  constructor
  · rintro ⟨out', hout', hsel⟩ ⟨⟨e, he⟩, x, hx, hr, hoff⟩
    obtain rfl : out = out' := Option.some.inj (hout.symm.trans hout')
    -- the only usable one was taken, so it is the only one that was counted
    have htaken : taken m = some e := hres.symm.trans (hsel.unique e he)
    obtain ⟨honly, hne⟩ := Option.filter_eq_some_iff.mp htaken
    have hxe := hcount hx hr hoff
    rw [only_eq_some.mp honly, List.mem_singleton] at hxe
    subst hxe
    simp [hoff] at hne
  · intro hno
    refine ⟨out, hout, fun e he => ?_, fun hnone => ?_, herr⟩
    · have hall : m.filter (fun e => decide (e.2.connectionState ≠ .offline)) = m := by
        rw [List.filter_eq_self]
        intro x hx
        obtain ⟨hxl, hc⟩ := List.mem_filter.mp hx
        have hr : x.2.requested ttype serial = true := (Bool.and_eq_true_iff.mp hc).2
        by_contra hoff
        exact hno ⟨⟨e, he⟩, x, hxl, hr, by simpa using hoff⟩
      rw [filter_usable, ← hm] at he
      have hne : e.2.connectionState ≠ .offline := by
        have := List.of_mem_filter (he ▸ List.mem_singleton_self e)
        simpa using this
      rw [hall] at he
      simp [hres, taken, he, only, Option.filter, hne]
    · rw [hres]
      by_contra hsome
      obtain ⟨e, he⟩ := Option.ne_none_iff_exists'.mp hsome
      obtain ⟨honly, hne⟩ := Option.filter_eq_some_iff.mp he
      refine hnone e ?_
      rw [filter_usable, ← hm, only_eq_some.mp honly]
      simpa using hne

/-- A device that is connected again while its old transport is dying. -/
def reconnecting : List (TId × NamedTransport) :=
  [(0, { type := .usb, connectionState := .offline }),
    (1, { type := .usb, connectionState := .device })]

/-- The one that is dying makes the request ambiguous. -/
theorem acquire_selects_fails :
    reconnecting.filter (Usable .any none) =
      [(1, { type := .usb, connectionState := .device })] ∧
      acquireOneTransport none .any none [reconnecting] =
        some (none, some .moreThanOneDeviceAndEmulator) ∧
      ¬∃ out, acquireOneTransport none .any none [reconnecting] = some out ∧
        Selects .any none reconnecting out := by
  refine ⟨by decide, by decide, ?_⟩
  rintro ⟨out, hout, hsel⟩
  obtain rfl : (none, some .moreThanOneDeviceAndEmulator) = out := Option.some.inj hout
  exact absurd (hsel.unique (1, { type := .usb, connectionState := .device }) (by decide))
    (by simp)

/-! ### The call of the smart socket -/

/-- The text the client of the smart socket is sent. -/
def AcquireError.failReason : AcquireError → FailReason
  | .deviceNotFound => .deviceNotFound
  | .insufficientPermissions => .insufficientPermissions
  | .deviceOffline => .deviceOffline
  | _ => .moreThanOne

/-- The transports at the given addresses, with names. -/
def Lists (c : Core) (ts : List TId) (l : List (TId × NamedTransport)) : Prop :=
  List.Forall₂ (fun t e => e.1 = t ∧ c.transports t = some e.2.toATransport) ts l

theorem Lists.exists_mem {c : Core} {ts : List TId} {e : TId × NamedTransport}
    (h : Lists c ts l)
    (he : e ∈ l) : ∃ t ∈ ts, e.1 = t ∧ c.transports t = some e.2.toATransport := by
  induction h with
  | nil => cases he
  | @cons t e' ts l hte _ ih =>
      rcases List.mem_cons.mp he with rfl | hm
      · exact ⟨t, by simp, hte⟩
      · obtain ⟨t', ht', hr⟩ := ih hm
        exact ⟨t', by simp [ht'], hr⟩

/-- The two loops go together. -/
theorem acquireFrom_eq {c : Core} {ts : List TId} (h : Lists c ts l)
    (result : Option (TId × NamedTransport)) (err : AcquireError) :
    acquireFrom ts (result.map (·.1)) err.failReason c =
      .ok (((acquireScan .any none l result err).result.map (·.1),
        (acquireScan .any none l result err).error.failReason), c) := by
  induction h generalizing result err with
  | nil => rfl
  | @cons t e ts l he _ ih =>
      obtain ⟨rfl, hT⟩ := he
      simp only [acquireFrom]
      rw [bind_ok (getTransport_eq hT)]
      by_cases hp : e.2.connectionState = .noperm
      · simp only [acquireScan, hp, if_true]
        exact ih result .insufficientPermissions
      · cases result with
        | none => simpa [acquireScan, hp, NamedTransport.requested] using ih (some e) err
        | some r => simp [acquireScan, hp, NamedTransport.requested]; rfl

/-- **The call of the smart socket** is this function for any transport and no serial. -/
theorem acquireOneTransport_any {c : Core} (h : Lists c c.transportList l)
    (ls : List (List (TId × NamedTransport))) :
    ∃ out, acquireOneTransport none .any none (l :: ls) = some out ∧
      ∃ err, Adbd.acquireOneTransport c = .ok ((out.1.map (·.1), err), c) ∧
        ∀ e ∈ out.2, err = e.failReason := by
  have hfrom : acquireFrom c.transportList none .deviceNotFound c = _ :=
    acquireFrom_eq h none .deviceNotFound
  have hstart : Adbd.acquireOneTransport c = _ := bind_ok (f := _) (s := c) (a := c) rfl
  rw [hstart, bind_ok hfrom]
  simp only [acquireOneTransport, acquirePass]
  cases hres : (acquireScan .any none l none .deviceNotFound).result with
  | none => exact ⟨_, rfl, _, rfl, by simp⟩
  | some e =>
      have he : e ∈ l := by
        rw [acquireScan_result, only_eq_some] at hres
        exact List.mem_of_mem_filter (hres ▸ List.mem_singleton_self e)
      obtain ⟨t, -, rfl, hT⟩ := h.exists_mem he
      simp only [Option.map_some]
      rw [bind_ok (getTransport_eq hT)]
      by_cases hoff : e.2.connectionState = .offline
      · simp only [hoff, if_true]
        exact ⟨_, rfl, _, rfl, by simp [AcquireError.failReason]⟩
      · simp only [hoff, if_false, ne_eq, not_true_eq_false, false_and]
        exact ⟨_, rfl, _, rfl, by simp⟩

end Adbd.Acquire
