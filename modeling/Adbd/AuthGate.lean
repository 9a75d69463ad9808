import Adbd.HandlePacket
import Adbd.Runs

/-!
# The Authentication Gate

With `auth_enabled` set, a `CNXN` packet does not bring its transport online: the daemon
sends a random token, and the transport goes online when the host returns a signature of it
by a known key, or when the framework confirms the key of the host with `OK`. This module
has the branches of `handle_packet` that are involved, the callbacks of
`adb_auth_client.c`, and a log of what happened on the transport.

The three fields `online`, `connection_state` and `token` are only loosely coupled. A
signature is compared with whatever is in `token`, also before the first challenge and after
one that could not be made; and a `CNXN` takes the transport offline by a test of
`connection_state`, which a signature or an `OK` at the wrong moment leaves behind.

`RSA_verify` is a parameter, and so is the type of keys. What goes over the sockets of the
transport, and the `CNXN` packet `adb_auth_verified` answers with, are not part of this. The
framework answers with `OK` alone, so a confirmation has no key; and the one connection to it,
which all transports share in the source, is here the transport's own.

## Main definitions

* `AuthState`, `AuthAct`, `authStep`: one transport of a daemon with authentication.
* `Authenticated`: what the log must have for the transport to be online.
* `InTurn`: no signature or `OK` is accepted before the handshake, and tokens are made.

## Main results

* `Handshake.step`: outside of `CS_OFFLINE` the token of the transport is a challenge that was
  sent since the last `CNXN`.
* `online_authenticated`: in a run of such steps an online transport is authenticated.
-/

namespace Adbd

open Runs CString

def TOKEN_SIZE : Nat := 20

/-- What happened on a transport: a `CNXN` was received, `handle_offline` was called, a token
was generated and sent, `adb_auth_verify` accepted a signature of the token, an `OK` of the
framework was read, for whatever key it was last asked about. -/
inductive AuthEvent
  | cnxn
  | offline
  | challenged (token : List UInt8)
  | accepted (token : List UInt8)
  | confirmed
deriving DecidableEq, Repr

variable {K : Type}

/-- A transport with its fields for authentication, the keys `adb_auth_reload_keys` found,
whether the framework is connected (`framework_fd`) and its answer waited for (`auth_fde`),
and the log, newest first. No other transport asks the framework over the same connection. -/
structure AuthState (K : Type) where
  transport : ATransport
  token : List UInt8 := List.replicate TOKEN_SIZE 0
  failedAuthAttempts : UInt32 := 0
  keys : List K
  framework : Bool := false
  authFde : Bool := false
  log : List AuthEvent := []

/-- What the environment does for one packet: what `fread` gets from `/dev/urandom`, if it
can be opened, and whether the framework can be written to. -/
structure AuthEnv where
  random : Option (List UInt8) := none
  writes : Bool := true

/-- `adb_auth_generate_token`: the token and the return value. A short read overwrites the
first bytes of the token. -/
def adbAuthGenerateToken (token : List UInt8) : Option (List UInt8) → List UInt8 × Nat
  | none => (token, 0)
  | some bytes =>
      let got := bytes.take TOKEN_SIZE
      (got ++ token.drop got.length, if got.length = TOKEN_SIZE then TOKEN_SIZE else 0)

/-- `adb_auth_verify`, on a signature of length `siglen` at the start of a buffer. -/
def adbAuthVerify (rsaVerify : K → List UInt8 → List UInt8 → Bool) (keys : List K)
    (token sig : List UInt8) (siglen : Nat) : Bool :=
  if siglen ≠ RSANUMBYTES then false
  else keys.any fun key => rsaVerify key (sig.take siglen) token

namespace AuthState

/-- `handle_offline`. -/
def handleOffline (s : AuthState K) : AuthState K :=
  { s with transport := { s.transport with online := false }, log := .offline :: s.log }

/-- `handle_online`. -/
def handleOnline (s : AuthState K) : AuthState K :=
  { s with transport := { s.transport with online := true } }

/-- `send_auth_request`: nothing is sent if no token was generated. -/
def sendAuthRequest (s : AuthState K) (random : Option (List UInt8)) : AuthState K :=
  let r := adbAuthGenerateToken s.token random
  if r.2 ≠ TOKEN_SIZE then { s with token := r.1 }
  else { s with token := r.1, log := .challenged r.1 :: s.log }

/-- `adb_auth_confirm_key`: the framework is asked about a terminated key that fits a packet.
An empty payload ends with the last byte of the header, which is not zero. -/
def adbAuthConfirmKey (s : AuthState K) (key : List UInt8) (len : Nat) (writes : Bool) :
    AuthState K :=
  if s.framework = false then s
  else if len = 0 ∨ key.getD (len - 1) 0 ≠ 0 then s
  else if 2 + (cstr key).length ≥ MAX_PAYLOAD then s
  else if writes = false then s
  else { s with authFde := true }

/-- The `A_SYNC` case. -/
def handleSync (s : AuthState K) (p : APacket) : AuthState K :=
  if p.msg.arg0 ≠ 0 then s
  else { s with transport := { s.transport with connectionState := .offline } }.handleOffline

/-- The `A_CNXN` case. -/
def handleCnxn (s : AuthState K) (p : APacket) (env : AuthEnv) : AuthState K :=
  let s := { s with log := .cnxn :: s.log }
  let s :=
    if s.transport.connectionState ≠ .offline then
      { s with transport := { s.transport with connectionState := .offline } }.handleOffline
    else s
  { s with transport := s.transport.parseBanner p.data }.sendAuthRequest env.random

/-- The `A_AUTH` case. A daemon has no private keys: it answers a token with nothing. -/
def handleAuth (rsaVerify : K → List UInt8 → List UInt8 → Bool) (s : AuthState K) (p : APacket)
    (env : AuthEnv) : AuthState K :=
  if p.msg.arg0 = ADB_AUTH_TOKEN then s
  else if p.msg.arg0 = ADB_AUTH_SIGNATURE then
    if adbAuthVerify rsaVerify s.keys s.token p.data p.msg.dataLength.toNat then
      { s.handleOnline with failedAuthAttempts := 0, log := .accepted s.token :: s.log }
    else
      { s with failedAuthAttempts := s.failedAuthAttempts + 1 }.sendAuthRequest env.random
  else if p.msg.arg0 = ADB_AUTH_RSAPUBLICKEY then
    s.adbAuthConfirmKey p.data p.msg.dataLength.toNat env.writes
  else s

/-- `handle_packet` on the transport; the other packets leave these fields alone. -/
def handlePacket (rsaVerify : K → List UInt8 → List UInt8 → Bool) (s : AuthState K)
    (p : APacket) (env : AuthEnv) : AuthState K :=
  if p.msg.command = A_SYNC then s.handleSync p
  else if p.msg.command = A_CNXN then s.handleCnxn p env
  else if p.msg.command = A_AUTH then s.handleAuth rsaVerify p env
  else s

/-- `adb_auth_event`: what was read from the framework, if anything could be, and the keys the
files hold by then. -/
def adbAuthEvent (s : AuthState K) (response : Option (List UInt8)) (keys : List K) :
    AuthState K :=
  match response with
  | none => { s with authFde := false, framework := false }
  | some bytes =>
      if bytes = ascii ['O', 'K'] then
        { s.handleOnline with keys := keys, log := .confirmed :: s.log }
      else s

end AuthState

/-- What happens to the transport: a packet is handled, the framework connects
(`adb_auth_listener`), or its descriptor is readable. -/
inductive AuthAct (K : Type)
  | packet (p : APacket) (env : AuthEnv)
  | listener
  | readable (response : Option (List UInt8)) (keys : List K)

/-- One step. The framework is read only while its answer is waited for. -/
def authStep (rsaVerify : K → List UInt8 → List UInt8 → Bool) (s : AuthState K) :
    AuthAct K → Option (AuthState K)
  | .packet p env => some (s.handlePacket rsaVerify p env)
  | .listener => some { s with framework := true }
  | .readable response keys => if s.authFde then some (s.adbAuthEvent response keys) else none

/-- **Authenticated**: a `CNXN` was received, and after the last one, with no `handle_offline`
since, a signature of a token sent after it was accepted or the framework confirmed a key. -/
def Authenticated (log : List AuthEvent) : Prop :=
  ∃ after before, log = after ++ .cnxn :: before ∧ .cnxn ∉ after ∧
    ∃ later e earlier, after = later ++ e :: earlier ∧ .offline ∉ later ∧
      (e = .confirmed ∨ ∃ token, e = .accepted token ∧ .challenged token ∈ earlier)

/-- An online transport is authenticated. -/
def Gated (s : AuthState K) : Prop := s.transport.online = true → Authenticated s.log

/-! ### The handshake -/

/-- The kind of system a banner names is not `CS_OFFLINE`. -/
theorem bannerType_ne_offline (m : Buf) : (bannerType.run m).1 ≠ .offline := by
  unfold bannerType
  rw [Acc.run_bind]
  split
  · simp
  rw [Acc.run_bind]
  split
  · simp
  rw [Acc.run_bind]
  split
  · simp
  rw [Acc.run_bind]
  split
  · simp
  · simp

/-- `parse_banner` leaves `CS_OFFLINE`. -/
theorem ATransport.parseBanner_connectionState (T : ATransport) (banner : List UInt8) :
    (T.parseBanner banner).connectionState ≠ .offline := by
  simp only [ATransport.parseBanner, Adbd.parseBanner, Acc.run_bind, Acc.run_pure]
  exact bannerType_ne_offline _

/-- A token was generated and sent after the last `CNXN`. -/
def Challenged (token : List UInt8) (log : List AuthEvent) : Prop :=
  ∃ after before, log = after ++ .cnxn :: before ∧ .cnxn ∉ after ∧ .challenged token ∈ after

/-- A log that goes on without a `CNXN` has the same challenges, and one more. -/
theorem Challenged.cons {token : List UInt8} {log : List AuthEvent} {e : AuthEvent}
    (h : Challenged token log) (he : e ≠ .cnxn) : Challenged token (e :: log) := by
  obtain ⟨after, before, rfl, hno, hm⟩ := h
  exact ⟨e :: after, before, rfl, by simp [hno, he.symm], by simp [hm]⟩

theorem Challenged.again {token token' : List UInt8} {log : List AuthEvent}
    (h : Challenged token log) : Challenged token' (.challenged token' :: log) := by
  obtain ⟨after, before, rfl, hno, -⟩ := h
  exact ⟨.challenged token' :: after, before, rfl, by simp [hno], by simp⟩

/-- A signature of a challenge authenticates. -/
theorem Challenged.accepted {token : List UInt8} {log : List AuthEvent}
    (h : Challenged token log) :
    Authenticated (.accepted token :: log) := by
  obtain ⟨after, before, rfl, hno, hm⟩ := h
  exact ⟨.accepted token :: after, before, rfl, by simp [hno], [], .accepted token, after, rfl,
    by simp, .inr ⟨token, rfl, hm⟩⟩

/-- A key the framework confirms after a `CNXN` authenticates. -/
theorem Challenged.confirmed {token : List UInt8} {log : List AuthEvent}
    (h : Challenged token log) : Authenticated (.confirmed :: log) := by
  obtain ⟨after, before, rfl, hno, -⟩ := h
  exact ⟨.confirmed :: after, before, rfl, by simp [hno], [], .confirmed, after, rfl, by simp,
    .inl rfl⟩

/-- An authenticated transport stays so while it is neither connected nor taken offline. -/
theorem Authenticated.cons {log : List AuthEvent} {e : AuthEvent} (h : Authenticated log)
    (hc : e ≠ .cnxn) (ho : e ≠ .offline) : Authenticated (e :: log) := by
  obtain ⟨after, before, rfl, hno, later, e', earlier, rfl, hoff, he'⟩ := h
  exact ⟨e :: (later ++ e' :: earlier), before, rfl, by simpa [hc.symm] using hno,
    e :: later, e', earlier, rfl, by simp [hoff, ho.symm], he'⟩

/-- The event is one that brings the transport online. -/
def AuthEvent.isProof : AuthEvent → Bool
  | .accepted _ | .confirmed => true
  | _ => false

/-- The log of an authenticated transport has a `CNXN`, and a proof after it. -/
theorem Authenticated.mem {log : List AuthEvent} (h : Authenticated log) :
    .cnxn ∈ log ∧ (log.takeWhile (· ≠ .cnxn)).any (·.isProof) = true := by
  obtain ⟨after, before, rfl, hno, later, e, earlier, rfl, -, he⟩ := h
  have hproof : e.isProof = true := by
    rcases he with rfl | ⟨token, rfl, -⟩
    · rfl
    · rfl
  refine ⟨by simp, List.any_eq_true.mpr ⟨e, ?_, hproof⟩⟩
  have hall : ∀ x ∈ later ++ e :: earlier, decide (x ≠ AuthEvent.cnxn) = true := by
    intro x hx
    rw [decide_eq_true_iff]
    rintro rfl
    exact hno hx
  rw [List.takeWhile_append_of_pos hall]
  simp

/-- A token can be read from `/dev/urandom`. -/
def AuthEnv.Reads (env : AuthEnv) : Prop :=
  ∃ bytes, env.random = some bytes ∧ TOKEN_SIZE ≤ bytes.length

/-- A signature that is accepted and an `OK` of the framework come while the transport is not
in `CS_OFFLINE`, and a token that is to be generated is. -/
def InTurn (rsaVerify : K → List UInt8 → List UInt8 → Bool) (s : AuthState K) :
    AuthAct K → Prop
  | .packet p env =>
      (p.msg.command = A_AUTH → p.msg.arg0 = ADB_AUTH_SIGNATURE →
        adbAuthVerify rsaVerify s.keys s.token p.data p.msg.dataLength.toNat = true →
        s.transport.connectionState ≠ .offline) ∧
      (p.msg.command = A_CNXN ∨ p.msg.command = A_AUTH ∧ p.msg.arg0 = ADB_AUTH_SIGNATURE ∧
        adbAuthVerify rsaVerify s.keys s.token p.data p.msg.dataLength.toNat = false →
          env.Reads)
  | .listener => True
  | .readable response _ =>
      response = some (ascii ['O', 'K']) → s.transport.connectionState ≠ .offline

/-- `send_auth_request` with a token that can be read sends it. -/
theorem AuthState.sendAuthRequest_eq {env : AuthEnv} (henv : env.Reads) (s : AuthState K) :
    ∃ token, s.sendAuthRequest env.random =
      { s with token := token, log := .challenged token :: s.log } := by
  obtain ⟨bytes, hr, hlen⟩ := henv
  have hgot : (bytes.take TOKEN_SIZE).length = TOKEN_SIZE := by
    rw [List.length_take]
    exact Nat.min_eq_left hlen
  refine ⟨bytes.take TOKEN_SIZE ++ s.token.drop TOKEN_SIZE, ?_⟩
  simp only [AuthState.sendAuthRequest, adbAuthGenerateToken, hr, hgot, if_true]
  rw [if_neg (by simp)]

/-- Outside of `CS_OFFLINE` the token of the transport is a challenge of the handshake under
way, and the transport is online only there and authenticated. -/
structure Handshake (s : AuthState K) : Prop where
  challenged : s.transport.connectionState ≠ .offline → Challenged s.token s.log
  online : s.transport.online = true →
    s.transport.connectionState ≠ .offline ∧ Authenticated s.log

namespace Handshake

variable {s : AuthState K} {env : AuthEnv} {p : APacket}
  {rsaVerify : K → List UInt8 → List UInt8 → Bool}

/-- The `A_SYNC` case. -/
theorem sync (h : Handshake s) : Handshake (s.handleSync p) := by
  unfold AuthState.handleSync
  split
  · exact h
  · exact ⟨fun hne => absurd rfl hne, fun hon => nomatch hon⟩

/-- A challenge to a transport that is offline, after a `CNXN`. -/
theorem challenge (henv : env.Reads) (hon : s.transport.online = false)
    (after : List AuthEvent)
    {before : List AuthEvent} (hlog : s.log = after ++ .cnxn :: before) (hno : .cnxn ∉ after) :
    Handshake (s.sendAuthRequest env.random) := by
  obtain ⟨token, heq⟩ := s.sendAuthRequest_eq henv
  rw [heq]
  refine ⟨fun _ => ⟨.challenged token :: after, before, ?_, by simp [hno], by simp⟩,
    fun h => ?_⟩
  · simp [hlog]
  · rw [hon] at h
    cases h

/-- The `A_CNXN` case: the transport is offline, and a challenge is sent. -/
theorem cnxn (h : Handshake s) (henv : env.Reads) : Handshake (s.handleCnxn p env) := by
  unfold AuthState.handleCnxn
  dsimp only
  split
  · exact challenge henv rfl [.offline] rfl (by simp)
  · next hoff =>
    refine challenge henv ?_ [] rfl (by simp)
    -- the transport is not taken offline here: it must have been so before
    cases hon : s.transport.online with
    | false => exact hon
    | true => exact absurd (h.online hon).1 hoff

/-- The `A_AUTH` case. -/
theorem auth (h : Handshake s)
    (hsig : p.msg.arg0 = ADB_AUTH_SIGNATURE →
      adbAuthVerify rsaVerify s.keys s.token p.data p.msg.dataLength.toNat = true →
      s.transport.connectionState ≠ .offline)
    (henv : p.msg.arg0 = ADB_AUTH_SIGNATURE →
      adbAuthVerify rsaVerify s.keys s.token p.data p.msg.dataLength.toNat = false →
        env.Reads) :
    Handshake (s.handleAuth rsaVerify p env) := by
  unfold AuthState.handleAuth
  split
  · exact h
  split
  · next harg =>
    split
    · next hok =>
      have hne := hsig harg hok
      have hch := h.challenged hne
      exact ⟨fun _ => hch.cons (by simp), fun _ => ⟨hne, hch.accepted⟩⟩
    · next hok =>
      obtain ⟨token, heq⟩ := AuthState.sendAuthRequest_eq (henv harg (by simpa using hok))
        { s with failedAuthAttempts := s.failedAuthAttempts + 1 }
      rw [heq]
      refine ⟨fun hne => (h.challenged hne).again, fun hon => ?_⟩
      obtain ⟨hne, ha⟩ := h.online hon
      exact ⟨hne, ha.cons (by simp) (by simp)⟩
  split
  · unfold AuthState.adbAuthConfirmKey
    repeat' split
    all_goals exact ⟨h.challenged, h.online⟩
  · exact h

/-- The answer of the framework. -/
theorem answer (h : Handshake s) {response : Option (List UInt8)} {keys : List K}
    (hok : response = some (ascii ['O', 'K']) → s.transport.connectionState ≠ .offline) :
    Handshake (s.adbAuthEvent response keys) := by
  unfold AuthState.adbAuthEvent
  split
  · exact ⟨h.challenged, h.online⟩
  · next bytes =>
    split
    · next hbytes =>
      have hne := hok (congrArg some hbytes)
      have hch := h.challenged hne
      exact ⟨fun _ => hch.cons (by simp), fun _ => ⟨hne, hch.confirmed⟩⟩
    · exact h

/-- **Every step in turn** keeps the handshake. -/
theorem step (h : Handshake s) {a : AuthAct K} {s' : AuthState K} (ha : InTurn rsaVerify s a)
    (hs : authStep rsaVerify s a = some s') : Handshake s' := by
  cases a with
  | packet p env =>
      obtain rfl := Option.some.inj hs
      obtain ⟨hsig, henv⟩ := ha
      unfold AuthState.handlePacket
      split
      · exact h.sync
      split
      · next hc => exact h.cnxn (henv (.inl hc))
      split
      · next hc => exact h.auth (hsig hc) fun harg hno => henv (.inr ⟨hc, harg, hno⟩)
      · exact h
  | listener =>
      obtain rfl := Option.some.inj hs
      exact ⟨h.challenged, h.online⟩
  | readable response keys =>
      simp only [authStep] at hs
      split at hs
      · obtain rfl := Option.some.inj hs
        exact h.answer ha
      · cases hs

end Handshake

/-- A transport that was just registered. -/
def AuthState.Fresh (s : AuthState K) : Prop :=
  s.transport.online = false ∧ s.transport.connectionState = .offline ∧
    s.token = List.replicate TOKEN_SIZE 0 ∧ s.log = []

/-- **The authentication gate**: in a run of steps in turn, a transport that is online is
authenticated. -/
theorem online_authenticated (rsaVerify : K → List UInt8 → List UInt8 → Bool) {s : AuthState K}
    (hs : s.Fresh) (as : List (AuthAct K))
    (has : AlongSteps (authStep rsaVerify) (InTurn rsaVerify) s as) :
    Along (authStep rsaVerify) Gated s as := by
  obtain ⟨hon, hoff, -, -⟩ := hs
  have hstart : Handshake s :=
    ⟨fun hne => absurd hoff hne, fun h => by
      rw [hon] at h
      cases h⟩
  exact along_of_invariant (fun _ h hon => (h.online hon).2)
    (fun _ _ _ h ha hs => h.step ha hs) hstart has

/-- A transport that was just registered, of a daemon that knows one key. -/
def newAuthState : AuthState UInt8 := { transport := { type := .usb }, keys := [7] }

/-- A stand-in for the signature of a token by a key. -/
def signToken (key : UInt8) (token : List UInt8) : List UInt8 :=
  token ++ List.replicate (RSANUMBYTES - TOKEN_SIZE) key

/-- Whether a signature is that of the token. -/
def verifyToken (key : UInt8) (sig token : List UInt8) : Bool := sig == signToken key token

/-- An `AUTH` packet with a signature of `token`. -/
def signaturePacket (token : List UInt8) : APacket :=
  { addr := 0
    msg := { command := A_AUTH, arg0 := ADB_AUTH_SIGNATURE,
             dataLength := UInt32.ofNat RSANUMBYTES }
    data := signToken 7 token }

/-- A `CNXN` packet, for which `/dev/urandom` gives the byte `b`. -/
def cnxnAct (b : UInt8) : AuthAct UInt8 :=
  .packet { addr := 0, msg := { command := A_CNXN }, data := [] }
    { random := some (List.replicate TOKEN_SIZE b) }

/-- A handshake: the host connects and signs the token it is sent. -/
theorem online_authenticated_handshake :
    Along (authStep verifyToken) Gated newAuthState
      [cnxnAct 1, .packet (signaturePacket (List.replicate TOKEN_SIZE 1)) {}] := by
  refine online_authenticated verifyToken ⟨rfl, rfl, rfl, rfl⟩ _ fun s hs =>
    ⟨⟨?_, fun _ => ?_⟩, fun _ _ => ⟨⟨?_, ?_⟩, trivial⟩⟩
  · exact fun h => nomatch h
  · exact ⟨_, rfl, by decide⟩
  · obtain rfl := Option.some.inj hs
    exact fun _ _ _ => ATransport.parseBanner_connectionState _ _
  · obtain rfl := Option.some.inj hs
    rintro (h | ⟨-, -, h⟩)
    · exact absurd h (by decide)
    · exact absurd h (by decide +kernel)

/-- A signature of the all-zero token before any challenge brings the transport online; and
after a handshake and a `SYNC`, the signature is accepted a second time, and a new `CNXN`
leaves the transport online without a new one. -/
theorem zero_token_brings_online :
    (∃ s, [AuthAct.packet (signaturePacket (List.replicate TOKEN_SIZE 0)) {}].foldlM
        (authStep verifyToken) newAuthState = some s ∧ ¬Gated s) ∧
      ∃ s, [cnxnAct 1, .packet (signaturePacket (List.replicate TOKEN_SIZE 1)) {},
          .packet { addr := 0, msg := { command := A_SYNC } } {},
          .packet (signaturePacket (List.replicate TOKEN_SIZE 1)) {}, cnxnAct 2].foldlM
        (authStep verifyToken) newAuthState = some s ∧ ¬Gated s := by
  refine ⟨⟨_, rfl, fun h => ?_⟩, _, rfl, fun h => ?_⟩
  · have hmem := (h (by decide +kernel)).mem.1
    revert hmem
    decide +kernel
  · have hproof := (h (by decide +kernel)).mem.2
    revert hproof
    decide +kernel

end Adbd
