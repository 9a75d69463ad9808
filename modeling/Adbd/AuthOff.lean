import Adbd.Runs
import Adbd.Steps

/-!
# AUTH Packets with Authentication Off

The `A_AUTH` case of `handle_packet` does not look at `auth_enabled`. With authentication off
`adb_auth_init` never ran: `framework_fd` is `-1`, and `key_list`, which `list_init` would have
linked to itself, has a null `next`. What the case reads outside of the daemon's own variables
are the records of `key_list` and bytes of the payload.

A signature of the right length sends `adb_auth_verify` down the list, to a record that is not
there. Everything else an `A_AUTH` packet may say is harmless.

## Main definitions

* `KeyList`, `AuthGlobals`: the variables of `adb_auth_client.c`.
* `authCase`: what the `A_AUTH` case reads, and what it goes on to do.
* `AuthHarmless`: no null link is followed, no byte outside of the payload is read, and no
  transport changes its state.
* `EveryAuth`: something holds of every `A_AUTH` packet a run handles.

## Main results

* `handleAuth_eq`: the daemon does what the case goes on to do.
* `authHarmless_iff`: which packet is harmless.
* `every_auth_harmless_iff`: in which runs every packet is.
-/

namespace Adbd

open Program

variable {K : Type}

/-! ### The variables -/

/-- A record of `key_list`: a key and the link to the next record. -/
structure KeyNode (K : Type) where
  key : K
  next : Nat

/-- `key_list`: its address, which is not null, its link to the first record, and the records
with their addresses. -/
structure KeyList (K : Type) where
  head : Nat
  head_ne : head ≠ 0
  next : Nat
  nodes : List (Nat × KeyNode K)

/-- The static variables of `adb_auth_client.c`. -/
structure AuthGlobals (K : Type) where
  keys : KeyList K
  frameworkFd : Int

/-- The variables as the daemon starts with them. -/
def AuthGlobals.static (head : {a : Nat // a ≠ 0}) : AuthGlobals K where
  keys := { head := head.1, head_ne := head.2, next := 0, nodes := [] }
  frameworkFd := -1

/-! ### The `A_AUTH` case -/

/-- What is read: the record of `key_list` at an address, or a byte of the payload. -/
inductive AuthAccess
  | record (node : Nat)
  | payload (i : Int)
deriving DecidableEq, Repr

/-- The result of `adb_auth_verify`, if it has one: a link may lead nowhere, or round. -/
inductive Verdict
  | yes
  | no
  | stuck
deriving DecidableEq, Repr

variable (rsaVerify : K → List UInt8 → List UInt8 → Bool)

/-- The loop of `adb_auth_verify`, from the link `node` on: what is read, and the result. A
list is not longer than there are records. -/
def KeyList.verifyFrom (l : KeyList K) (token sig : List UInt8) (siglen : Nat) :
    Nat → Nat → List AuthAccess × Verdict
  | 0, node => ([], if node = l.head then .no else .stuck)
  | n + 1, node =>
      if node = l.head then ([], .no)
      else
        match l.nodes.lookup node with
        | none => ([.record node], .stuck)
        | some r =>
            let here := .record node :: (List.range siglen).map fun i => .payload i
            if rsaVerify r.key (sig.take siglen) token then (here, .yes)
            else
              let rest := l.verifyFrom token sig siglen n r.next
              (here ++ rest.1, rest.2)

/-- `adb_auth_verify`. -/
def AuthGlobals.adbAuthVerify (g : AuthGlobals K) (token sig : List UInt8) (siglen : Nat) :
    List AuthAccess × Verdict :=
  if siglen ≠ RSANUMBYTES then ([], .no)
  else g.keys.verifyFrom rsaVerify token sig siglen (g.keys.nodes.length + 1) g.keys.next

/-- What `adb_auth_confirm_key` reads of the key: its last byte, and if that is a terminator,
the string. -/
def AuthGlobals.adbAuthConfirmKey (g : AuthGlobals K) (key : List UInt8) (len : Nat) :
    List AuthAccess :=
  if g.frameworkFd < 0 then []
  else
    .payload ((len : Int) - 1) ::
      if len = 0 ∨ key.getD (len - 1) 0 ≠ 0 then []
      else (List.range ((cstr key).length + 1)).map fun i => .payload i

/-- What the case goes on to do: nothing, or one of its calls. -/
inductive AuthThen
  | nothing
  | sendAuthPublickey
  | adbAuthVerified
  | sendAuthRequest
  | stuck
deriving DecidableEq, Repr

/-- The `A_AUTH` case: what it reads, and what it goes on to do. `adb_auth_nextkey` has no
key. -/
def authCase (g : AuthGlobals K) (token : List UInt8) (p : APacket) :
    List AuthAccess × AuthThen :=
  if p.msg.arg0 = ADB_AUTH_TOKEN then ([], .sendAuthPublickey)
  else if p.msg.arg0 = ADB_AUTH_SIGNATURE then
    match g.adbAuthVerify rsaVerify token p.data p.msg.dataLength.toNat with
    | (as, .yes) => (as, .adbAuthVerified)
    | (as, .no) => (as, .sendAuthRequest)
    | (as, .stuck) => (as, .stuck)
  else if p.msg.arg0 = ADB_AUTH_RSAPUBLICKEY then
    (g.adbAuthConfirmKey p.data p.msg.dataLength.toNat, .nothing)
  else ([], .nothing)

/-- What the daemon does then. `adb_auth_get_userkey` has no key to send. -/
def AuthThen.perform (t : TId) : AuthThen → M Unit
  | .nothing => pure ()
  | .sendAuthPublickey => do
      let q ← getApacket
      putApacket q
  | .adbAuthVerified => do
      handleOnline t
      sendConnect t
  | .sendAuthRequest => Adbd.sendAuthRequest t
  | .stuck => fault .nullKeyList

variable (head : {a : Nat // a ≠ 0}) (token : List UInt8)

/-- With the variables as they are, a signature is looked for in a list without records. -/
theorem adbAuthVerify_static (sig : List UInt8) (siglen : Nat) :
    (AuthGlobals.static head).adbAuthVerify rsaVerify token sig siglen =
      if siglen = RSANUMBYTES then ([.record 0], .stuck) else ([], .no) := by
  have hhead : (0 : Nat) ≠ head.1 := head.2.symm
  by_cases h : siglen = RSANUMBYTES
  · rw [AuthGlobals.adbAuthVerify, if_neg (not_not.mpr h), if_pos h, AuthGlobals.static,
      KeyList.verifyFrom, if_neg hhead]
    rfl
  · rw [AuthGlobals.adbAuthVerify, if_pos h, if_neg h]

/-- **The `A_AUTH` case with authentication off**: only a signature of the right length makes
it read anything, and that is the record at the null link. -/
theorem authCase_static (p : APacket) :
    authCase rsaVerify (AuthGlobals.static head) token p =
      if p.msg.arg0 = ADB_AUTH_TOKEN then ([], .sendAuthPublickey)
      else if p.msg.arg0 = ADB_AUTH_SIGNATURE then
        if p.msg.dataLength.toNat = RSANUMBYTES then ([.record 0], .stuck)
        else ([], .sendAuthRequest)
      else ([], .nothing) := by
  have hconfirm : (AuthGlobals.static (K := K) head).adbAuthConfirmKey p.data
      p.msg.dataLength.toNat = [] := rfl
  rw [authCase, adbAuthVerify_static, hconfirm, ite_self]
  by_cases h : p.msg.dataLength.toNat = RSANUMBYTES
  · simp only [if_pos h]
  · simp only [if_neg h]

/-- **The daemon does what the case goes on to do.** -/
theorem handleAuth_eq (p : APacket) (t : TId) :
    handleAuth p t = (authCase rsaVerify (AuthGlobals.static head) token p).2.perform t := by
  rw [authCase_static, handleAuth]
  split
  · rfl
  split
  · split <;> rfl
  · rfl

/-! ### Harmless packets -/

/-- The states of the transports are the same. -/
def Core.SameStates (c c' : Core) : Prop :=
  ∀ t, (c'.transports t).map (fun T => (T.online, T.connectionState)) =
    (c.transports t).map fun T => (T.online, T.connectionState)

/-- A signature that `adb_auth_verify` looks for. -/
def SignatureSized (p : APacket) : Prop :=
  p.msg.arg0 = ADB_AUTH_SIGNATURE ∧ p.msg.dataLength.toNat = RSANUMBYTES

/-- **An `A_AUTH` packet is harmless**: handling it follows no null link, reads no byte outside
of the payload, and leaves the states of the transports as they are. -/
structure AuthHarmless (s : System) (io : Io) (p : APacket) : Prop where
  links : .record 0 ∉ (authCase rsaVerify (AuthGlobals.static head) token p).1
  returns : step s (.dispatch io) ≠ .error (.fault .nullKeyList)
  payload : ∀ i, .payload i ∈ (authCase rsaVerify (AuthGlobals.static head) token p).1 →
    0 ≤ i ∧ i < p.msg.dataLength.toNat
  states : ∀ s', step s (.dispatch io) = .ok s' → s.core.SameStates s'.core

namespace Core.SameStates

variable {c c' : Core}

theorem of_eq (h : c'.transports = c.transports) : c.SameStates c' := fun t => by rw [h]

theorem trans {c'' : Core} (h : c.SameStates c') (h' : c'.SameStates c'') : c.SameStates c'' :=
  fun t => (h' t).trans (h t)

/-- The packets in the pipes do not matter. -/
theorem put {t : TId} {T T' : ATransport} (hT : c.transports t = some T)
    (ho : T'.online = T.online) (hc : T'.connectionState = T.connectionState) :
    c.SameStates (c.putTransport t (some T')) := by
  intro t'
  by_cases ht : t' = t
  · subst ht
    simp [putTransport, hT, ho, hc]
  · simp [putTransport, ht]

end Core.SameStates

/-- Sending a packet changes no state, and does not walk `key_list`. -/
theorem wp_sendPacket_states {p : APacket} {t : TId} {r : Option SockId} (c : Core) :
    wp (sendPacket p (some t) r) (fun _ => c.SameStates) (· ≠ .nullKeyList) c := by
  rw [wp_sendPacket]
  refine ⟨fun T hT => ?_, fun _ => by simp⟩
  split
  · exact Core.SameStates.put hT rfl rfl
  · simp

/-- Freeing a packet. -/
theorem wp_putApacket_states {p : APacket} {c c' : Core} (h : c.SameStates c') :
    wp (putApacket p) (fun _ => c.SameStates) (· ≠ .nullKeyList) c' := by
  simp only [putApacket, wp_bind, wp_get]
  split
  · exact h.trans (.of_eq rfl)
  · simp [wp_fault]

/-- Every other packet leaves the states as they are. -/
theorem wp_handleAuth_states {p : APacket} {t : TId} (h : ¬SignatureSized p) (c : Core) :
    wp (handleAuth p t) (fun _ => c.SameStates) (· ≠ .nullKeyList) c := by
  rw [handleAuth]
  split
  · rw [wp_bind, wp_getApacket]
    exact wp_putApacket_states (.of_eq rfl)
  split
  · next hs =>
    rw [if_neg fun hlen => h ⟨hs, hlen⟩, sendAuthRequest, wp_bind, wp_get]
    cases c.io.token with
    | none => exact .of_eq rfl
    | some token =>
        dsimp only
        rw [wp_bind, wp_getApacket]
        exact wp_mono (wp_sendPacket_states c.newPkt) (fun _ _ hs => .trans (.of_eq rfl) hs)
          fun _ => id
  · exact .of_eq rfl

section Handling

variable {s : System} {io : Io} {t : TId} {p : APacket} {c : Core}

/-- Handling an `A_AUTH` packet is its case, and freeing it. -/
theorem handlePacket_auth {T : ATransport} (hT : c.transports t = some T)
    (hc : p.msg.command = A_AUTH) :
    handlePacket p t c = (handleAuth p t >>= fun _ => putApacket p) c := by
  rw [handlePacket, bind_ok (getTransport_eq hT)]
  simp [hc, handleCommand, A_AUTH, A_SYNC, A_WRTE, A_CNXN]

/-- **Which `A_AUTH` packet is harmless**, in any state: one that is no signature of the right
length. -/
theorem authHarmless_iff (hh : s.Handles io t p c) (hc : p.msg.command = A_AUTH) :
    AuthHarmless rsaVerify head token s io p ↔ ¬SignatureSized p := by
  obtain ⟨c₁, T, rest, hr, hT, -, -, hput⟩ := id hh
  have hTc : c.transports t = some { T with ioToMain := rest } := by
    simp [hput, Core.putTransport]
  have hsame : s.core.SameStates c := by
    rw [hput]
    exact .trans (.of_eq hr.transports_eq) (.put hT rfl rfl)
  have hstep : step s (.dispatch io) =
      System.run (handleAuth p t >>= fun _ => putApacket p) { s with core := c } := by
    rw [hh.step_eq, System.run, System.run, handlePacket_auth hTc hc]
  have hcase := authCase_static rsaVerify head token p
  constructor
  · rintro h ⟨hs, hlen⟩
    refine h.returns ?_
    have hfault : handleAuth p t c = .error .nullKeyList := by
      simp [handleAuth, hs, hlen, ADB_AUTH_SIGNATURE, ADB_AUTH_TOKEN, fault]
    rw [hstep, System.run, bind_error hfault]
  · intro h
    have hnone : (authCase rsaVerify (AuthGlobals.static head) token p).1 = [] := by
      rw [hcase]
      split
      · rfl
      split
      · next hs => rw [if_neg fun hlen => h ⟨hs, hlen⟩]
      · rfl
    have hwp : wp (handleAuth p t >>= fun _ => putApacket p) (fun _ => c.SameStates)
        (· ≠ .nullKeyList) c := by
      rw [wp_bind]
      exact wp_mono (wp_handleAuth_states h c) (fun _ _ => wp_putApacket_states) fun _ => id
    refine ⟨by simp [hnone], ?_, by simp [hnone], fun s' hs' => ?_⟩
    · intro hf
      rw [hstep, System.run] at hf
      split at hf
      · cases hf
      · next f hm =>
        obtain rfl : f = .nullKeyList := by simpa using hf
        exact wp_error hwp hm rfl
    · rw [hstep, System.run] at hs'
      split at hs'
      · next c' hm =>
        obtain rfl := Except.ok.inj hs'
        have hstates := wp_ok hwp hm
        exact hsame.trans hstates
      · cases hs'

end Handling

/-! ### Runs -/

/-- Something holds of every `A_AUTH` packet that is handled in a run, in the state in which it
is handled. -/
def EveryAuth (R : System → Io → APacket → Prop) : System → List Action → Prop
  | _, [] => True
  | s, a :: as =>
      (∀ io t p c, a = .dispatch io → s.Handles io t p c → p.msg.command = A_AUTH → R s io p) ∧
        ∀ s', step s a = .ok s' → EveryAuth R s' as

/-- What is the same of every handled packet is the same of every run. -/
theorem EveryAuth.congr {R R' : System → Io → APacket → Prop}
    (h : ∀ s io t p c, s.Handles io t p c → p.msg.command = A_AUTH → (R s io p ↔ R' s io p))
    (s : System) (as : List Action) : EveryAuth R s as ↔ EveryAuth R' s as := by
  induction as generalizing s with
  | nil => exact Iff.rfl
  | cons a as ih =>
      refine and_congr ?_ (forall₂_congr fun s' _ => ih s')
      constructor
      · exact fun hall io t p c ha hh hc => (h s io t p c hh hc).mp (hall io t p c ha hh hc)
      · exact fun hall io t p c ha hh hc => (h s io t p c hh hc).mpr (hall io t p c ha hh hc)

/-- **When the `A_AUTH` packets of a run are harmless**: none of them is a signature of the
right length. -/
theorem every_auth_harmless_iff (as : List Action) :
    EveryAuth (AuthHarmless rsaVerify head token) System.init as ↔
      EveryAuth (fun _ _ p => ¬SignatureSized p) System.init as :=
  EveryAuth.congr (fun _ _ _ _ _ hh hc => authHarmless_iff rsaVerify head token hh hc) _ as

/-- A remote that has not even connected sends 256 bytes as a signature: the daemon follows the
null link. -/
theorem auth_follows_null : ∃ s p c, Reachable s ∧ s.Handles {} 0 p c ∧
    p.msg.command = A_AUTH ∧ p.msg.dataLength.toNat ≤ MAX_PAYLOAD ∧
    step s (.dispatch {}) = .error (.fault .nullKeyList) ∧
    ¬AuthHarmless (K := Unit) (fun _ _ _ => true) ⟨1, by decide⟩ [] s {} p := by
  let test : System → Bool := fun s => (s.packetCall {} 0).any fun pc =>
    decide (pc.1.msg.command = A_AUTH ∧ pc.1.msg.dataLength.toNat ≤ MAX_PAYLOAD)
  obtain ⟨s, hs, hP⟩ := exists_reachable
    (.register .usb :: event .registration Events.onlyRead {} ++
      .output 0 none false :: event (.transport 0) Events.onlyRead {} ++
      (receive 0 A_AUTH ADB_AUTH_SIGNATURE 0 (List.replicate 256 7) {}).dropLast)
    (P := fun s => test s && decide (s.faults (.dispatch {}) = some .nullKeyList))
    (by decide +kernel)
  rw [Bool.and_eq_true] at hP
  obtain ⟨⟨p, c⟩, hcall, hp⟩ := (Option.any_eq_true _ _).mp hP.1
  obtain ⟨hc, hlen⟩ := of_decide_eq_true hp
  have hfault := s.step_of_faults (of_decide_eq_true hP.2)
  exact ⟨s, p, c, hs, s.handles_of_packetCall hcall, hc, hlen, hfault,
    fun h => h.returns hfault⟩

end Adbd
