import Adbd.BannerText
import Adbd.EndOfStream

/-!
# Sessions

A remote opens a session with a `CNXN`, which the daemon answers with a `CNXN` of its own, and
`SYNC(0)` ends it. Streams belong to a session: on a transport that is not online, nothing is
sent but `CNXN`, `AUTH` and `SYNC`, whatever the remote sends and whatever the sockets of the
daemon do meanwhile. The main loop puts the packets into the pipe to the input thread, so that
the remote hears of no stream before it got its `CNXN`.

## Main definitions

* `session`, `InSession`: the messages that are sent, and whether a session is open.
* `ATransport.Settled`: outside of a session a transport is not in use.

## Main results

* `Op.keeps_online`: only `CNXN` and `SYNC(0)` open and end a session.
* `step_continues`: what a step sends is allowed, and says whether the transport is online.
* `streams_in_session`: this holds of every run, and of what the remote gets.
-/

namespace Adbd

open Program Custody

variable {c e : Core} {w w' : Work} {o : Op} {s s' : System} {t : TId} {T T' : ATransport}
  {p : APacket} {k : Task} {io : Io} {a : Action} {on : Bool} {m : AMessage}
  {ms ms' : List AMessage}

/-! ### The messages of a session -/

/-- The messages that belong to no stream. -/
def AMessage.Bare (m : AMessage) : Prop :=
  m.command = A_CNXN ∨ m.command = A_AUTH ∨ m.command = A_SYNC

instance (m : AMessage) : Decidable m.Bare := by
  unfold AMessage.Bare; infer_instance

/-- Whether a session is open behind a message. -/
def session (on : Bool) (m : AMessage) : Bool :=
  if m.command = A_CNXN then true else if Sync0 m then false else on

/-- Outside of a session only messages that belong to no stream are sent. -/
def InSession : Bool → List AMessage → Prop
  | _, [] => True
  | on, m :: ms => (on = true ∨ m.Bare) ∧ InSession (session on m) ms

theorem inSession_append :
    InSession on (ms ++ ms') ↔ InSession on ms ∧ InSession (ms.foldl session on) ms' := by
  induction ms generalizing on with
  | nil => simp [InSession]
  | cons m ms ih => simp [InSession, ih, and_assoc]

/-- Within a session everything may be sent; it lasts until a `SYNC(0)`. -/
theorem session_lasts (h : ∀ m ∈ ms, ¬Sync0 m) :
    InSession true ms ∧ ms.foldl session true = true := by
  induction ms with
  | nil => exact ⟨trivial, rfl⟩
  | cons m ms ih =>
      have hm : session true m = true := by simp [session, h m]
      obtain ⟨hin, hon⟩ := ih fun m' hm' => h m' (List.mem_cons_of_mem _ hm')
      exact ⟨⟨.inl rfl, by rw [hm]; exact hin⟩, by rw [List.foldl_cons, hm, hon]⟩

/-- Messages that belong to no stream may always be sent. -/
theorem InSession.of_bare (h : ∀ m ∈ ms, m.Bare) : InSession on ms := by
  induction ms generalizing on with
  | nil => trivial
  | cons m ms ih =>
      exact ⟨.inr (h m (List.mem_cons_self ..)),
        ih fun m' hm' => h m' (List.mem_cons_of_mem _ hm')⟩

/-- It takes a `CNXN` to open a session. -/
theorem session_waits (h : ∀ m ∈ ms, m.command ≠ A_CNXN) : ms.foldl session false = false := by
  induction ms with
  | nil => rfl
  | cons m ms ih =>
      have hm : session false m = false := by simp [session, h m]
      rw [List.foldl_cons, hm]
      exact ih fun m' hm' => h m' (List.mem_cons_of_mem _ hm')

/-- A message of a stream is sent behind a `CNXN`. -/
theorem InSession.behind_cnxn (h : InSession false (ms ++ m :: ms')) (hm : ¬m.Bare) :
    ∃ m' ∈ ms, m'.command = A_CNXN := by
  have hopen := (inSession_append.mp h).2.1.resolve_right hm
  by_contra hno
  rw [session_waits fun m' hm' hc => hno ⟨m', hm', hc⟩] at hopen
  cases hopen

/-- A session does not depend on the `SYNC`s that do not end it. -/
theorem InSession.payload {ps : List APacket} (h : InSession on (ps.map (·.msg))) :
    InSession on ((Link.payload ps).map (·.msg)) := by
  induction ps generalizing on with
  | nil => trivial
  | cons p ps ih =>
      rw [Link.payload]
      by_cases h0 : Sync0 p.msg
      · rw [List.takeWhile_cons_of_neg (by simpa using h0)]
        trivial
      · rw [List.takeWhile_cons_of_pos (by simpa using h0)]
        have hrest := ih h.2
        by_cases hc : p.msg.command = A_SYNC
        · rw [List.filter_cons_of_neg (by simpa using hc)]
          have hp : session on p.msg = on := by
            rw [session, if_neg (by rw [hc]; decide), if_neg h0]
          rw [hp] at hrest
          exact hrest
        · rw [List.filter_cons_of_pos (by simpa using hc)]
          exact ⟨h.1, hrest⟩

/-! ### What opens and ends a session -/

/-- Outside of a session a transport is not in use; within one it is connected. -/
def ATransport.Settled (T : ATransport) : Prop :=
  if T.online then T.connectionState ≠ .offline else ¬T.InUse

theorem ATransport.Settled.inUse_iff (h : T.Settled) : T.InUse ↔ T.online = true := by
  rw [Settled] at h
  split at h
  · next ho => exact ⟨fun _ => ho, fun _ => .inr h⟩
  · next ho => exact ⟨fun hu => absurd hu h, fun h => absurd h ho⟩

/-- **Only `CNXN` and `SYNC(0)` open and end a session.** -/
theorem Op.keeps_online (hm : k.May e w o) (hk : ∀ p, k = .packet t p → ¬Offline p) :
    (o.turn w.core t T).online = T.online ∧
      (o.turn w.core t T).connectionState = T.connectionState := by
  cases o with
  | conn t' T₀ online state quals =>
      obtain ⟨p, rfl, hp⟩ := hm
      have ht : t' ≠ t := fun h => hk p (by rw [h]) hp
      simp [turn, ht]
  | popMain | popIo | post | closePipes =>
      simp only [turn]
      split <;> exact ⟨rfl, rfl⟩
  | _ => exact ⟨rfl, rfl⟩

/-- A property of `online` and `connection_state` that a handler keeps. -/
theorem Ops.keeps_online {I : Bool → ConnState → Prop} (h : Ops (k.May e) w w')
    (hk : ∀ p, k = .packet t p → ¬Offline p) (hnew : k ≠ .register t ∨ I false .offline)
    (hI : ∀ T, w.core.transports t = some T → I T.online T.connectionState) :
    ∀ T', w'.core.transports t = some T' → I T'.online T'.connectionState := by
  refine h.invariant (I := fun v => ∀ T', v.core.transports t = some T' →
    I T'.online T'.connectionState) hI ?_
  intro v o hv hg hm T₂ hT₂
  obtain ⟨type, rfl, rfl⟩ | ⟨T₁, hT₁, rfl⟩ := Op.effect_transport hg hT₂
  · exact hnew.resolve_left fun hne => hne hm
  · obtain ⟨hon, hst⟩ := Op.keeps_online (T := T₁) hm hk
    rw [hon, hst]
    exact hv T₁ hT₁

/-! ### What a step sends -/

/-- What a step puts into the pipe is pushed by its operations. -/
theorem step_pushes {P : Work → Op → Prop} {φ : APacket → Prop} (hr : Reachable s)
    (hs : step s a = .ok s') (hops : Ops P ⟨s.core, []⟩ ⟨s'.core, []⟩)
    (hreg : ∀ v o, P v o → ∀ type, o ≠ .register t type)
    (hpush : ∀ v o T₁, P v o → o.Guard v → v.core.transports t = some T₁ →
      ∀ p ∈ o.pushed v.core t, φ p)
    (hT : s.core.transports t = some T) (hT' : s'.core.transports t = some T') :
    ∀ p ∈ s.puts t a s', φ p := by
  -- the input thread takes packets off the front of the pipe
  obtain ⟨pre, new, heq, hall⟩ : ∃ pre new, pre ++ T'.mainToIo = T.mainToIo ++ new ∧
      ∀ p ∈ new, φ p := by
    refine hops.invariant (I := fun v => ∀ T₁, v.core.transports t = some T₁ → ∃ pre new,
      pre ++ T₁.mainToIo = T.mainToIo ++ new ∧ ∀ p ∈ new, φ p) (fun T₁ hT₁ => ?_) ?_ T' hT'
    · obtain rfl := Option.some.inj (hT.symm.trans hT₁)
      exact ⟨[], [], by simp, by simp⟩
    intro v o hv hg hm T₂ hT₂
    obtain ⟨type, ho, -⟩ | ⟨T₁, hT₁, rfl⟩ := Op.effect_transport hg hT₂
    · exact absurd ho (hreg v o hm type)
    obtain ⟨pre, new, heq, hall⟩ := hv T₁ hT₁
    by_cases hpop : ∃ T₀ q rest, o = .popIo t T₀ q rest
    · obtain ⟨T₀, q, rest, rfl⟩ := hpop
      obtain rfl : T₀ = T₁ := Option.some.inj (hg.1.symm.trans hT₁)
      refine ⟨pre ++ [q], new, ?_, hall⟩
      simp [Op.turn, ← heq, hg.2]
    · have hio := Op.mainToIo_eq hg (hreg v o hm)
        (fun T₀ q rest h => hpop ⟨T₀, q, rest, h⟩) hT₁ hT₂
      refine ⟨pre, new ++ o.pushed v.core t, ?_, fun p hp => ?_⟩
      · rw [hio, ← List.append_assoc, heq, List.append_assoc]
      · exact (List.mem_append.mp hp).elim (hall p) (hpush v o T₁ hm hg hT₁ p)
  intro p hp
  by_cases htakes : s.takes t a = true
  · rw [System.puts, if_pos htakes] at hp
    cases hp
  · have hbox := step_outbox hr hs hT hT'
    rw [System.pops, if_neg htakes, List.nil_append] at hbox
    rw [← hbox, ← List.append_assoc] at heq
    have hlen := congrArg List.length heq
    simp only [List.length_append] at hlen
    have hsuf : s.puts t a s' <:+ T.mainToIo ++ new := ⟨_, heq⟩
    have hsuf' := List.suffix_of_suffix_length_le hsuf (List.suffix_append _ _) (by omega)
    exact hall p (hsuf'.subset hp)

/-- The messages that a step sends on a transport. -/
def System.sends (s : System) (t : TId) (a : Action) (s' : System) : List AMessage :=
  (s.puts t a s').map (·.msg)

/-- What a step makes of the session of a transport. -/
structure ATransport.Continues (T : ATransport) (ms : List AMessage) (T' : ATransport) :
    Prop where
  settled : T'.Settled
  allowed : InSession T.online ms
  online : T'.online = ms.foldl session T.online

/-- Handlers of other things, and of the packets of a session. -/
theorem step_online (hr : Reachable s) (hs : step s a = .ok s')
    (hT : s.core.transports t = some T) (hT' : s'.core.transports t = some T') (h : T.Settled)
    (hon : T.online = true) (hk : ∀ p, s.task a = .packet t p → p.msg.command ≠ A_SYNC ∧
      p.msg.command ≠ A_CNXN) : T.Continues (s.sends t a s') T' := by
  have hops := step_ops hr.wf hr.lives.unregistered hs
  have hreg := step_registered hr hs hT
  obtain ⟨hon', hst'⟩ := hops.keeps_online (t := t)
    (I := fun on st => on = T.online ∧ st = T.connectionState)
    (fun p hp hoff => hoff.elim (hk p hp).2 fun h => (hk p hp).1 h.1) (.inl hreg)
    (fun T₁ hT₁ => by rw [Option.some.inj (hT.symm.trans hT₁)]; exact ⟨rfl, rfl⟩) T' hT'
  have hputs : ∀ p ∈ s.puts t a s', p.msg.command ≠ A_SYNC := by
    refine step_pushes hr hs hops (fun v o hm type ho => hreg (by subst ho; exact hm))
      (fun v o _ hm hg _ p hp => ?_) hT hT'
    rcases Op.pushed_command hm hg hp with hne | ⟨p₀, hp₀, hsync, -⟩
    · exact hne
    · exact absurd hsync (hk p₀ hp₀).1
  have hsends : ∀ m ∈ s.sends t a s', ¬Sync0 m := by
    rw [System.sends]
    intro m hm h0
    obtain ⟨p, hp, rfl⟩ := List.mem_map.mp hm
    exact hputs p hp h0.1
  obtain ⟨hin, hlast⟩ := session_lasts hsends
  rw [ATransport.Settled, if_pos hon] at h
  refine ⟨?_, by rw [hon]; exact hin, by rw [hon', hon, hlast]⟩
  rw [ATransport.Settled, if_pos (hon'.trans hon), hst']
  exact h

/-- Handlers of other things, outside of a session. -/
theorem step_offline (hr : Reachable s) (hs : step s a = .ok s')
    (hT : s.core.transports t = some T) (hT' : s'.core.transports t = some T') (hu : ¬T.InUse)
    (hoff : T.online = false) (hk : ∀ p, s.task a ≠ .packet t p) :
    T.Continues (s.sends t a s') T' := by
  have hops := step_ops hr.wf hr.lives.unregistered hs
  have hreg := step_registered hr hs hT
  obtain ⟨hon', -⟩ := hops.keeps_online (t := t)
    (I := fun on st => on = T.online ∧ st = T.connectionState)
    (fun p hp => absurd hp (hk p)) (.inl hreg)
    (fun T₁ hT₁ => by rw [Option.some.inj (hT.symm.trans hT₁)]; exact ⟨rfl, rfl⟩) T' hT'
  let I : Work → Prop := fun v => WF v ∧ ∀ T₁, v.core.transports t = some T₁ → ¬T₁.InUse
  have hkeep (v : Work) (o : Op) (hv : I v) (hg : o.Guard v)
      (hm : (s.task a).May (s.start a) v o) :
      I (o.apply v) ∧ (s.task a).May (s.start a) v o ∧
        ∀ T₁, v.core.transports t = some T₁ → o.pushed v.core t = [] := by
    refine ⟨⟨hv.1.op hg, fun T₂ hT₂ => ?_⟩, hm, fun T₁ hT₁ =>
      (Op.pushed_idle hv.1.graph hm hg hk hT₁ (hv.2 T₁ hT₁)).1⟩
    obtain ⟨type, rfl, -⟩ | ⟨T₁, hT₁, rfl⟩ := Op.effect_transport hg hT₂
    · exact absurd hm hreg
    · have hidle := hv.2 T₁ hT₁
      have hlink := (Op.pushed_idle hv.1.graph hm hg hk hT₁ hidle).2
      have hst := (Op.keeps_online (T := T₁) hm fun p hp => absurd hp (hk p)).2
      rw [ATransport.InUse, Op.turn_disconnects, hlink, hst]
      exact not_or.mpr ⟨by simp, fun hne => hidle (.inr hne)⟩
  have h0 : I ⟨s.core, []⟩ :=
    ⟨hr.wf, fun T₁ hT₁ => by rw [← Option.some.inj (hT.symm.trans hT₁)]; exact hu⟩
  have hidle : ¬T'.InUse :=
    (hops.invariant (I := I) h0 fun v o hv hg hm => (hkeep v o hv hg hm).1).2 T' hT'
  have hputs : ∀ p ∈ s.puts t a s', False :=
    step_pushes hr hs (hops.strengthen h0 hkeep)
      (fun v o hm type ho => hreg (by subst ho; exact hm.1))
      (fun v o T₁ hm _ hT₁ p hp => by rw [hm.2 T₁ hT₁] at hp; cases hp) hT hT'
  have hnil : s.sends t a s' = [] := by
    rw [System.sends, List.eq_nil_iff_forall_not_mem.mpr hputs, List.map_nil]
  rw [hnil]
  have hoff' := hon'.trans hoff
  refine ⟨?_, trivial, hon'⟩
  rw [ATransport.Settled, if_neg (by simp [hoff'])]
  exact hidle

/-! ### The packets that open and end a session -/

/-- `handle_packet` finds the transport as it was, without the packet. -/
theorem System.Handles.transport (h : s.Handles io t p c) (hT : s.core.transports t = some T) :
    ∃ rest, c.transports t = some { T with ioToMain := rest } ∧ c.PipesOpen t := by
  obtain ⟨c₁, T₀, rest, hr, hT₀, ho, -, rfl⟩ := h
  rw [hr.transports_eq, hT] at hT₀
  obtain rfl := Option.some.inj hT₀
  have hcT : (c₁.putTransport t (some { T with ioToMain := rest })).transports t =
      some { T with ioToMain := rest } := Function.update_self ..
  refine ⟨rest, hcT, fun T₁ hT₁ => ?_⟩
  rw [← Option.some.inj (hcT.symm.trans hT₁)]
  exact Core.pipesOpen_of_canRead ho

/-- The step ends as `handle_packet` does. -/
theorem System.Handles.ends {P : Work → Op → Prop} {Q : Unit → Work → Prop} (hr : Reachable s)
    (hs : step s (.dispatch io) = .ok s') (h : s.Handles io t p c)
    (hd : Does P ⟨c, [p.addr]⟩ (handlePacket p t) Q) : ∃ H, Q () ⟨s'.core, H⟩ := by
  obtain ⟨H, -, hQ⟩ := System.run_does (hd (h.wf hr.wf)) (h.step_eq.symm.trans hs)
  exact ⟨H, hQ⟩

/-- The echo of a `SYNC`. -/
theorem step_echo (hr : Reachable s) (hs : step s (.dispatch io) = .ok s')
    (hk : s.task (.dispatch io) = .packet t p) (hT : s.core.transports t = some T)
    (hT' : s'.core.transports t = some T') (h : T.Settled) (hc : p.msg.command = A_SYNC) :
    T.Continues (s.sends t (.dispatch io) s') T' := by
  obtain ⟨c, hh⟩ := System.exists_handles hk
  obtain ⟨rest, hcT, hopen⟩ := hh.transport hT
  have hdoes : Does ((Task.packet t p).May c) ⟨c, [p.addr]⟩ (handlePacket p t) fun _ w' =>
      ∃ T, c.transports t = some T ∧ w'.core.transports t = some (T.synced p) := by
    rw [handlePacket]
    refine .getTransport fun T _ => ?_
    rw [if_pos hc]
    exact (Does.handleSync (by simp) hc hopen).mono fun _ _ _ h => h.2
  obtain ⟨H, T₁, hT₁, hsync⟩ := hh.ends hr hs hdoes
  obtain rfl := Option.some.inj (hcT.symm.trans hT₁)
  obtain rfl := Option.some.inj (hsync.symm.trans hT')
  have hputs : s.puts t (.dispatch io) s' = [p.finish] := by
    refine step_read hT hT' ?_
    rw [ATransport.synced]
    split <;> rfl
  have hbare : p.finish.msg.Bare := .inr (.inr hc)
  rw [System.sends, hputs, List.map_singleton]
  by_cases h0 : p.msg.arg0 = 0
  · have hend : session T.online p.finish.msg = false := by
      rw [session, if_neg (by rw [show p.finish.msg.command = _ from hc]; decide),
        if_pos ⟨hc, h0⟩]
    refine ⟨?_, ⟨.inr hbare, trivial⟩, ?_⟩
    · simp [ATransport.synced, h0, ATransport.Settled, ATransport.InUse]
    · rw [List.foldl_cons, hend]
      simp [ATransport.synced, h0]
  · have hkeep : session T.online p.finish.msg = T.online := by
      rw [session, if_neg (by rw [show p.finish.msg.command = _ from hc]; decide),
        if_neg fun hz => h0 hz.2]
    rw [ATransport.synced, if_neg h0]
    exact ⟨h, ⟨.inr hbare, trivial⟩, by rw [List.foldl_cons, hkeep]; rfl⟩

/-- No kind of system is offline. -/
theorem kindOfSystem_ne_offline (type : List UInt8) : kindOfSystem type ≠ .offline := by
  unfold kindOfSystem
  repeat' split
  all_goals decide

/-- Whatever the banner says, the transport is connected. -/
theorem ATransport.parseBanner_state (T : ATransport) (data : List UInt8) :
    (T.parseBanner data).connectionState ≠ .offline := by
  have hroom : (cstr data).length < data.length + 1 :=
    Nat.lt_succ_of_le (List.takeWhile_prefix _).length_le
  have hread := run_parseBanner (q := T.quals) (cstringAt_ofList data) hroom
  have hstate : (T.parseBanner data).connectionState = (readBanner (cstr data) T.quals).1 :=
    congrArg Prod.fst hread
  rw [hstate]
  exact kindOfSystem_ne_offline _

/-- A transport on which a `CNXN` was answered. -/
def ATransport.Answered (T T' : ATransport) : Prop :=
  T'.online = true ∧ T'.connectionState ≠ .offline ∧
    ∃ q : APacket, T'.mainToIo = T.mainToIo ++ [q] ∧ q.msg.command = A_CNXN

/-- The answer to a `CNXN`, whatever the transport was before. -/
theorem Does.cnxnAnswered (hopen : w.core.PipesOpen t) :
    Does (fun _ _ => True) w (Adbd.handleCnxn p t) fun _ w' => w'.hand = w.hand ∧
      ∀ T, w.core.transports t = some T → ∃ T', w'.core.transports t = some T' ∧
        T.Answered T' := by
  rw [Adbd.handleCnxn]
  refine .getTransport fun T hT => ?_
  have hrest {v : Work} {T₁ : ATransport} (hh : v.hand = w.hand) (hopen' : v.core.PipesOpen t)
      (hT₁ : v.core.transports t = some T₁) (hio : T₁.mainToIo = T.mainToIo) :
      Does (fun _ _ => True) v (do
        modTransport t fun T => T.parseBanner p.data
        handleOnline t
        sendConnect t) fun _ w' => w'.hand = w.hand ∧ ∀ T, w.core.transports t = some T →
          ∃ T', w'.core.transports t = some T' ∧ T.Answered T' := by
    refine .bind (Does.conn (fun _ => rfl) fun _ _ _ _ _ => trivial) ?_
    rintro _ v₁ ⟨T₂, hT₂, rfl⟩
    obtain rfl := Option.some.inj (hT₁.symm.trans hT₂)
    rw [handleOnline]
    refine .bind (Does.conn (fun _ => rfl) fun _ _ _ _ _ => trivial) ?_
    rintro _ v₂ ⟨T₃, hT₃, hv₂⟩
    have hopen₂ : v₂.core.PipesOpen t := by
      rw [hv₂]
      exact (hopen'.conn hT₁).conn hT₃
    obtain ⟨T₄, hT₄, hon, hst, hio₄⟩ : ∃ T₄, v₂.core.transports t = some T₄ ∧
        T₄.online = true ∧ T₄.connectionState ≠ .offline ∧ T₄.mainToIo = T₁.mainToIo := by
      obtain rfl : T₃ = T₁.parseBanner p.data := by
        simpa [Op.effect, Core.putTransport, ATransport.parseBanner] using hT₃.symm
      rw [hv₂]
      exact ⟨_, Function.update_self .., rfl, T₁.parseBanner_state p.data, rfl⟩
    have hhand : v₂.hand = w.hand := by rw [hv₂]; exact hh
    rw [sendConnect]
    refine .get ?_
    refine .op (r := { addr := v₂.core.nextPkt }) .newPkt (fun _ => trivial) trivial rfl ?_
    refine (Does.send (by simp [Op.handle]) (by exact hopen₂) fun _ _ => trivial).mono ?_
    rintro _ v₃ - ⟨T₅, hT₅, rfl⟩
    obtain rfl := Option.some.inj (hT₄.symm.trans hT₅)
    refine ⟨by simpa [Op.handle] using hhand, fun T₀ hT₀ => ?_⟩
    obtain rfl := Option.some.inj (hT.symm.trans hT₀)
    exact ⟨_, Function.update_self .., hon, hst, _, by rw [hio₄, hio], rfl⟩
  dsimp only
  split
  · -- the transport was connected, and goes offline first
    refine .bind (Does.conn (fun _ => rfl) fun _ _ _ _ _ => trivial) ?_
    rintro _ v ⟨T₁, hT₁, rfl⟩
    obtain rfl := Option.some.inj (hT.symm.trans hT₁)
    refine .bind (Does.handleOffline (fun _ _ _ _ _ => trivial) fun _ _ _ => trivial) ?_
    rintro _ v ⟨hh, T₂, hT₂, hT₃⟩
    obtain rfl : { T with connectionState := .offline } = T₂ := by
      simpa [Op.effect, Core.putTransport] using hT₂
    exact hrest hh (hopen.put hT hT₃ rfl) hT₃ rfl
  · exact hrest rfl hopen hT rfl

/-- Freeing a packet touches no transport. -/
theorem Does.freed {P : Work → Op → Prop} (hp : p.addr ∈ w.hand) (hP : P w (.freePkt p.addr)) :
    Does P w (Adbd.putApacket p) fun _ w' => w'.core.transports = w.core.transports := by
  intro hw
  rw [wp_putApacket (hw.pkts.live (o := .hand) hp)]
  exact ⟨_, Ops.one (.freePkt p.addr) hp hP, rfl⟩

/-- The answer to a `CNXN` opens a session. -/
theorem step_cnxn (hr : Reachable s) (hs : step s (.dispatch io) = .ok s')
    (hk : s.task (.dispatch io) = .packet t p) (hT : s.core.transports t = some T)
    (hT' : s'.core.transports t = some T') (hc : p.msg.command = A_CNXN) :
    T.Continues (s.sends t (.dispatch io) s') T' := by
  obtain ⟨c, hh⟩ := System.exists_handles hk
  obtain ⟨rest, hcT, hopen⟩ := hh.transport hT
  have hdoes : Does (fun _ _ => True) ⟨c, [p.addr]⟩ (handlePacket p t) fun _ w' =>
      ∃ T', w'.core.transports t = some T' ∧ T.Answered T' := by
    rw [handlePacket]
    refine .getTransport fun T₁ hT₁ => ?_
    rw [if_neg (by rw [hc]; decide), if_neg (by rw [hc]; decide), handleCommand, if_pos hc]
    refine .bind (Does.cnxnAnswered hopen) ?_
    rintro _ w' ⟨hh', hans⟩
    refine (Does.freed (by rw [hh']; simp) trivial).mono ?_
    rintro _ w'' - hsame
    rw [hsame]
    obtain ⟨T', hT', hans⟩ := hans _ hcT
    exact ⟨T', hT', hans⟩
  obtain ⟨H, T₁, hT₁, hon, hst, q, hio, hq⟩ := hh.ends hr hs hdoes
  obtain rfl := Option.some.inj (hT₁.symm.trans hT')
  have hputs : s.puts t (.dispatch io) s' = [q] := step_read hT hT' hio
  rw [System.sends, hputs, List.map_singleton]
  have hopened : session T.online q.msg = true := by rw [session, if_pos hq]
  refine ⟨by rw [ATransport.Settled, if_pos hon]; exact hst, ⟨.inr (.inl hq), trivial⟩, ?_⟩
  rw [hon, List.foldl_cons, hopened]
  rfl

/-- A transport on which at most an `AUTH` was answered. -/
def ATransport.Declined (T T' : ATransport) : Prop :=
  ∃ new, T' = { T with mainToIo := T.mainToIo ++ new } ∧ ∀ q ∈ new, q.msg.command = A_AUTH

theorem ATransport.Declined.refl (T : ATransport) : T.Declined T := ⟨[], by simp, by simp⟩

/-- The `A_AUTH` case. -/
theorem Does.authDeclined (hopen : w.core.PipesOpen t) (hT : w.core.transports t = some T) :
    Does (fun _ _ => True) w (Adbd.handleAuth p t) fun _ w' => w'.hand = w.hand ∧
      ∃ T', w'.core.transports t = some T' ∧ T.Declined T' := by
  have hnone : ∃ T', w.core.transports t = some T' ∧ T.Declined T' := ⟨T, hT, .refl T⟩
  rw [Adbd.handleAuth]
  split
  · refine .op (r := { addr := w.core.nextPkt }) .newPkt (fun _ => trivial) trivial rfl ?_
    intro hw
    rw [wp_putApacket (by simp [Op.effect, Core.newPkt])]
    have hgd : Op.Guard (Op.newPkt.apply w) (.freePkt w.core.nextPkt) := by
      simp [Op.Guard, Op.handle]
    exact ⟨_, Ops.one _ hgd trivial, by simp [Op.handle], hnone⟩
  split
  · split
    · exact fun _ => Does.excused trivial
    · rw [sendAuthRequest]
      refine .get ?_
      cases w.core.io.token with
      | none => exact .pure ⟨rfl, hnone⟩
      | some token =>
          refine .op (r := { addr := w.core.nextPkt }) .newPkt
            (fun _ => trivial) trivial rfl ?_
          refine (Does.send (by simp [Op.handle]) (by exact hopen) fun _ _ => trivial).mono ?_
          rintro _ w' - ⟨T₁, hT₁, rfl⟩
          obtain rfl := Option.some.inj (hT.symm.trans hT₁)
          refine ⟨by simp [Op.handle], _, Function.update_self .., _, rfl, fun q hq => ?_⟩
          obtain rfl := List.mem_singleton.mp hq
          rfl
  · exact .pure ⟨rfl, hnone⟩

/-- What is done with a packet outside of a session that does not open one. -/
theorem Does.declined (hopen : w.core.PipesOpen t) (hp : p.addr ∈ w.hand)
    (hT : w.core.transports t = some T) (hoff : T.online = false)
    (hsync : p.msg.command ≠ A_SYNC) (hcnxn : p.msg.command ≠ A_CNXN) :
    Does (fun _ _ => True) w (Adbd.handlePacket p t) fun _ w' =>
      ∃ T', w'.core.transports t = some T' ∧ T.Declined T' := by
  have hno : ¬T.online = true := by simp [hoff]
  rw [Adbd.handlePacket]
  refine .getTransport fun T₁ hT₁ => ?_
  obtain rfl := Option.some.inj (hT.symm.trans hT₁)
  rw [if_neg hsync, if_neg hno]
  split
  · refine (Does.freed hp trivial).mono ?_
    rintro _ w' - hsame
    exact ⟨T, by rw [hsame, hT], .refl T⟩
  have hcommand : Does (fun _ _ => True) w (Adbd.handleCommand p t T) fun _ w' =>
      w'.hand = w.hand ∧ ∃ T', w'.core.transports t = some T' ∧ T.Declined T' := by
    rw [Adbd.handleCommand, if_neg hcnxn, if_neg hno, if_neg hno, if_neg hno]
    split
    · exact .authDeclined hopen hT
    · repeat' split
      all_goals exact .pure ⟨rfl, T, hT, .refl T⟩
  refine .bind hcommand ?_
  rintro _ w' ⟨hh, T', hT', hdecl⟩
  refine (Does.freed (by rw [hh]; exact hp) trivial).mono ?_
  rintro _ w'' - hsame
  exact ⟨T', by rw [hsame, hT'], hdecl⟩

/-- Other packets open no session. -/
theorem step_declined (hr : Reachable s) (hs : step s (.dispatch io) = .ok s')
    (hk : s.task (.dispatch io) = .packet t p) (hT : s.core.transports t = some T)
    (hT' : s'.core.transports t = some T') (h : T.Settled) (hoff : T.online = false)
    (hsync : p.msg.command ≠ A_SYNC) (hcnxn : p.msg.command ≠ A_CNXN) :
    T.Continues (s.sends t (.dispatch io) s') T' := by
  obtain ⟨c, hh⟩ := System.exists_handles hk
  obtain ⟨rest, hcT, hopen⟩ := hh.transport hT
  obtain ⟨H, T₁, hT₁, new, rfl, hall⟩ :=
    hh.ends hr hs (Does.declined hopen (by simp) hcT hoff hsync hcnxn)
  obtain rfl := Option.some.inj (hT₁.symm.trans hT')
  have hputs : s.puts t (.dispatch io) s' = new := step_read hT hT' rfl
  have hauth : ∀ m ∈ new.map (·.msg), m.command = A_AUTH := by
    intro m hm
    obtain ⟨q, hq, rfl⟩ := List.mem_map.mp hm
    exact hall q hq
  rw [System.sends, hputs]
  refine ⟨h, .of_bare fun m hm => .inr (.inl (hauth m hm)), ?_⟩
  rw [hoff, session_waits fun m hm => by rw [hauth m hm]; decide]

/-! ### Runs -/

/-- **What a step sends is allowed in the session, and says whether the transport is
online.** -/
theorem step_continues (hr : Reachable s) (hs : step s a = .ok s')
    (hT : s.core.transports t = some T) (hT' : s'.core.transports t = some T')
    (h : T.Settled) :
    T.Continues (s.sends t a s') T' := by
  by_cases hk : ∃ p, s.task a = .packet t p ∧
      (p.msg.command = A_SYNC ∨ p.msg.command = A_CNXN ∨ T.online = false)
  · obtain ⟨p, hk, hp⟩ := hk
    obtain ⟨io, rfl⟩ := s.dispatch_of_task (a := a) (by rw [hk]; trivial)
    by_cases hsync : p.msg.command = A_SYNC
    · exact step_echo hr hs hk hT hT' h hsync
    by_cases hcnxn : p.msg.command = A_CNXN
    · exact step_cnxn hr hs hk hT hT' hcnxn
    · exact step_declined hr hs hk hT hT' h ((hp.resolve_left hsync).resolve_left hcnxn)
        hsync hcnxn
  · have hno (p : APacket) (hp : s.task a = .packet t p) : p.msg.command ≠ A_SYNC ∧
        p.msg.command ≠ A_CNXN ∧ T.online = true :=
      ⟨fun hc => hk ⟨p, hp, .inl hc⟩, fun hc => hk ⟨p, hp, .inr (.inl hc)⟩,
        by simpa using fun ho => hk ⟨p, hp, .inr (.inr ho)⟩⟩
    cases hon : T.online with
    | true => exact step_online hr hs hT hT' h hon fun p hp => ⟨(hno p hp).1, (hno p hp).2.1⟩
    | false =>
        rw [ATransport.Settled, if_neg (by simp [hon])] at h
        exact step_offline hr hs hT hT' h hon fun p hp => by
          cases hon.symm.trans (hno p hp).2.2

/-- A transport is registered outside of a session. -/
theorem step_registers (hr : Reachable s) (hs : step s a = .ok s')
    (hT : s.core.transports t = none) (hT' : s'.core.transports t = some T') :
    T'.Settled ∧ T'.online = false := by
  have hops := step_ops hr.wf hr.lives.unregistered hs
  have htask := task_register hr hs hT hT'
  obtain ⟨hoff, -⟩ := hops.keeps_online (t := t) (I := fun on st => on = false ∧ st = .offline)
    (fun p hp => by rcases htask with h | h <;> cases hp.symm.trans h) (.inr ⟨rfl, rfl⟩)
    (fun T hT₁ => by simp [hT] at hT₁) T' hT'
  obtain ⟨l, -, hlink, -⟩ := step_link_start hr hs hT hT'
  have hidle : decide T'.InUse = false := congrArg Link.inUse hlink
  rw [ATransport.Settled, if_neg (by simp [hoff])]
  exact ⟨of_decide_eq_false hidle, hoff⟩

namespace Traced

variable {x : Traced}

/-- What is sent on a transport keeps to its sessions. -/
theorem inSession (h : Trans.Runs (step t) (fun _ _ => True) init x) :
    InSession false (x.sent.map (·.msg)) ∧ ∀ T, x.system.core.transports t = some T →
      T.Settled ∧ T.online = (x.sent.map (·.msg)).foldl session false := by
  let J : Traced → Prop := fun x => Reachable x.system ∧ InSession false (x.sent.map (·.msg)) ∧
    (∀ T, x.system.core.transports t = some T →
      T.Settled ∧ T.online = (x.sent.map (·.msg)).foldl session false) ∧
    ((∀ l, x.system.life t = some l → l.started = false) → x.sent = [])
  suffices hJ : J x from ⟨hJ.2.1, hJ.2.2.1⟩
  refine h.invariant (I := J) ⟨Trans.Runs.refl, trivial, fun T hT => ?_, fun _ => rfl⟩ ?_
  · cases hT
  rintro x a x' ⟨hr, hin, hsettled, hnew⟩ - hs
  obtain ⟨hs, hsent, -⟩ := step_ok hs
  have hr' : Reachable x'.system := Trans.Runs.tail hr trivial hs
  have hgone (hgone : x.system.core.transports t = none ∨ x'.system.core.transports t = none) :
      x'.sent = x.sent := by
    rw [hsent, (step_outbox_gone hr hs hgone).1, List.append_nil]
  refine ⟨hr', ?_, fun T' hT' => ?_, fun hno => ?_⟩
  · cases hT : x.system.core.transports t with
    | none =>
        rw [hgone (.inl hT)]
        exact hin
    | some T =>
        cases hT' : x'.system.core.transports t with
        | none =>
            rw [hgone (.inr hT')]
            exact hin
        | some T' =>
            obtain ⟨hset, hon⟩ := hsettled T hT
            have hcont := step_continues hr hs hT hT' hset
            rw [hsent, List.map_append, inSession_append, ← hon]
            exact ⟨hin, hcont.allowed⟩
  · cases hT : x.system.core.transports t with
    | none =>
        obtain ⟨l', -, -, hwait⟩ := step_link_start hr hs hT hT'
        rw [hgone (.inl hT), hnew hwait]
        exact step_registers hr hs hT hT'
    | some T =>
        obtain ⟨hset, hon⟩ := hsettled T hT
        have hcont := step_continues hr hs hT hT' hset
        rw [hsent, List.map_append, List.foldl_append, ← hon]
        exact ⟨hcont.settled, hcont.online⟩
  · have hwait : ∀ l, x.system.life t = some l → l.started = false := by
      intro l hl
      by_contra hst
      obtain ⟨l', hl', hst'⟩ := step_started hr hs hl (by simpa using hst)
      simp [hno l' hl'] at hst'
    rw [hgone (.inl (hr.no_transport hwait)), hnew hwait]

end Traced

/-- **Streams belong to a session**, in every interleaving of the threads and for whatever the
remote sends. On a transport on which no session is open nothing is sent but `CNXN`, `AUTH` and
`SYNC`; what was sent last of `CNXN` and `SYNC(0)` says whether the transport is online, and
only then it is in use: connected, or with streams. A message of a stream reaches the remote
behind a `CNXN`. -/
theorem streams_in_session {x : Traced}
    (h : Trans.Runs (Traced.step t) (fun _ _ => True) Traced.init x) :
    InSession false (x.sent.map (·.msg)) ∧
      (∀ T, x.system.core.transports t = some T →
        T.online = (x.sent.map (·.msg)).foldl session false ∧ (T.InUse ↔ T.online = true)) ∧
      ∀ l T, x.system.life t = some l → x.system.core.transports t = some T →
        ∀ ps p ps', l.toRemote = ps ++ p :: ps' → ¬p.msg.Bare →
          ∃ q ∈ ps, q.msg.command = A_CNXN := by
  obtain ⟨hin, hsettled⟩ := Traced.inSession h
  refine ⟨hin, fun T hT => ⟨(hsettled T hT).2, (hsettled T hT).1.inUse_iff⟩, ?_⟩
  intro l T hl hT ps p ps' heq hp
  have hgate : (l.link T).Gate x.sent x.read :=
    (Traced.invariant (A := fun _ => True) h .init (fun _ _ _ _ _ => trivial)
      fun _ _ _ _ _ hg hs _ => hg.step hs).2 l T hl hT
  have hread : InSession false (x.read.map (·.msg)) := by
    rw [hgate.fifo, List.map_append] at hin
    exact (inSession_append.mp hin).1
  have hremote : InSession false (l.toRemote.map (·.msg)) := by
    rw [show l.toRemote = Link.payload x.read from hgate.remote]
    exact hread.payload
  rw [heq, List.map_append, List.map_cons] at hremote
  obtain ⟨m, hm, hc⟩ := hremote.behind_cnxn hp
  obtain ⟨q, hq, rfl⟩ := List.mem_map.mp hm
  exact ⟨q, hq, hc⟩

/-- A remote connects and opens a shell: its `OKAY` is behind the `CNXN`. -/
theorem streams_in_session_shell : ∃ (x : Traced) (l : Life) (ps ps' : List APacket)
    (p : APacket), x.system.life 0 = some l ∧ l.toRemote = ps ++ p :: ps' ∧ ¬p.msg.Bare ∧
      ∃ q ∈ ps, q.msg.command = A_CNXN := by
  obtain ⟨x, hx, hP⟩ := Traced.exists_run 0
    (connect 0 .usb ++ openShell 0 5 9 ++ [.input 0 false, .input 0 false, .input 0 false])
    (P := fun x => (x.system.life 0).any (fun l => l.toRemote.any fun p => ¬p.msg.Bare) &&
      (x.system.core.transports 0).isSome) (by decide +kernel)
  obtain ⟨hl, hT⟩ := (Bool.and_eq_true _ _).mp hP
  obtain ⟨l, hl, hm⟩ := (Option.any_eq_true _ _).mp hl
  obtain ⟨T, hT⟩ := Option.isSome_iff_exists.mp hT
  obtain ⟨p, hmem, hbare⟩ := List.any_eq_true.mp hm
  obtain ⟨ps, ps', heq⟩ := List.append_of_mem hmem
  have hbare := of_decide_eq_true hbare
  exact ⟨x, l, ps, ps', p, hl, heq, hbare,
    (streams_in_session hx).2.2 l T hl hT ps p ps' heq hbare⟩

end Adbd
