import Adbd.Pipes
import Adbd.Link

/-!
# The Steps of a Transport

What a step does to one transport: to its life and to the record the main loop has of it,
which together are its `Link`. Every step is one of the steps of a link, so that what holds of
a transport and its two pipes in every interleaving is a matter of going through those.

## Main definitions

* `Task.About`: the handlers of the packets, pipes and registration of a transport.
* `ATransport.Beside`: the transport after the handlers of other things.
* `Life.link`: the link of a transport.

## Main results

* `Op.pushed_command`: only the echo of a `SYNC` is a `SYNC`.
* `Ops.other_turn`: what the handlers of other things do to a transport.
* `step_link`: a step that leaves a transport registered is a step of its link.
* `step_link_start`: a transport that a step registers starts its link.
-/

namespace Adbd

open Program Custody

variable {c c₀ : Core} {w w' : Work} {o : Op} {k : Task} {t : TId} {T T' : ATransport}
  {s s' : System} {p : APacket} {l l' : Life} {a : Action}

/-! ### What is sent -/

/-- **Only the echo of a `SYNC` is a `SYNC`.** -/
theorem Op.pushed_command (hm : k.May c₀ w o) (hg : o.Guard w) (hp : p ∈ o.pushed w.core t) :
    p.msg.command ≠ A_SYNC ∨
      ∃ p₀, k = .packet t p₀ ∧ p₀.msg.command = A_SYNC ∧ p = p₀.finish := by
  cases o with
  | send t' T₀ q =>
      obtain ⟨p₀, hk, hsync, hother⟩ := hm
      simp only [pushed] at hp
      split at hp
      · next ht =>
        subst ht
        obtain rfl := List.mem_singleton.mp hp
        by_cases hc : p₀.msg.command = A_SYNC
        · exact .inr ⟨p₀, hk, hc, (hsync hc).1⟩
        · exact .inl (hother hc)
      · cases hp
  | sendList _ t' T₀ q =>
      simp only [pushed] at hp
      split at hp
      · obtain rfl := List.mem_singleton.mp hp
        rw [hm.2]
        exact .inl (by decide)
      · cases hp
  | readWrte _ _ t' T₀ q =>
      simp only [pushed] at hp
      split at hp
      · obtain rfl := List.mem_singleton.mp hp
        rw [hg.2.2.2.2.1]
        exact .inl (by decide)
      · cases hp
  | rig _ _ _ _ t' T₀ q =>
      simp only [pushed] at hp
      split at hp
      · obtain rfl := List.mem_singleton.mp hp
        rw [hm.2.2.2.1]
        exact .inl (by decide)
      · cases hp
  | openStream d =>
      simp only [pushed] at hp
      split at hp
      · obtain rfl := List.mem_singleton.mp hp
        exact .inl (by simp [ctlPacket, APacket.finish, A_OKAY, A_SYNC])
      · cases hp
  | wrteDone t' _ b T₀ m q =>
      simp only [pushed] at hp
      split at hp
      · obtain rfl := List.mem_singleton.mp hp
        exact .inl (by simp [ctlPacket, APacket.finish, A_OKAY, A_SYNC])
      · cases hp
  | drainReady _ b d far =>
      cases far with
      | none => cases hp
      | some far =>
          obtain ⟨t', T₀, id⟩ := far
          simp only [pushed] at hp
          split at hp
          · obtain rfl := List.mem_singleton.mp hp
            exact .inl (by simp [ctlPacket, APacket.finish, A_OKAY, A_SYNC])
          · cases hp
  | close d =>
      simp only [pushed] at hp
      split at hp
      · split at hp
        · simp only [Close.clse] at hp
          split at hp
          · split at hp
            · obtain rfl := List.mem_singleton.mp hp
              exact .inl (by simp [ctlPacket, APacket.finish, A_CLSE, A_SYNC])
            · cases hp
          · cases hp
        · cases hp
      · cases hp
  | _ => cases hp

/-! ### Handlers of other things -/

/-- The handlers of the packets of `t`, of the ends of its pipes, and of its registration. -/
def Task.About (k : Task) (t : TId) : Prop :=
  match k with
  | .packet t' _ | .register t' | .remove t' | .unref t' | .post t' _ _ | .pop t' => t' = t
  | _ => False

instance (k : Task) (t : TId) : Decidable (k.About t) := by
  unfold Task.About; cases k <;> infer_instance

/-- What an operation of another handler does to the record of a transport: it sends on it and
links and unlinks streams. -/
theorem Op.turn_other (hm : k.May c₀ w o) (hk : ¬k.About t) :
    o.turn w.core t T = { T with
      mainToIo := T.mainToIo ++ o.pushed w.core t
      disconnects := o.relinked w.core t T.disconnects } := by
  cases o with
  | conn t' T₀ online state quals =>
      obtain ⟨p, rfl, -⟩ := hm
      have ht : t' ≠ t := hk
      simp [turn, pushed, relinked, ht]
  | popMain t' T₀ p rest =>
      obtain rfl : k = .packet t' p := hm
      have ht : t' ≠ t := hk
      simp [turn, pushed, relinked, ht]
  | popIo t' T₀ p rest =>
      obtain rfl : k = .pop t' := hm
      have ht : t' ≠ t := hk
      simp [turn, pushed, relinked, ht]
  | post t' T₀ p =>
      obtain rfl : k = .post t' p.msg p.data := hm
      have ht : t' ≠ t := hk
      simp [turn, pushed, relinked, ht]
  | closePipes t' T₀ =>
      obtain rfl : k = .unref t' := hm
      have ht : t' ≠ t := hk
      simp [turn, pushed, relinked, ht]
  | _ => rfl

/-- A transport without streams has no remote sockets. -/
theorem Graph.no_remote (h : Graph c) (hT : c.transports t = some T) (hd : T.disconnects = [])
    {x : SockId} {b : ASocket} (hb : c.sockets x = some b) (hk : b.kind = .remoteSocket)
    (ht : b.transport = some t) : False := by
  have hmem := (h.disconnect_iff hT hb).mpr ⟨hk, ht⟩
  rw [hd] at hmem
  cases hmem

/-- **Nothing is sent on a transport that is not in use**, except by its own packets. -/
theorem Op.pushed_idle (hgr : Graph w.core) (hm : k.May c₀ w o) (hg : o.Guard w)
    (hk : ∀ p, k ≠ .packet t p) (hT : w.core.transports t = some T) (hu : ¬T.InUse) :
    o.pushed w.core t = [] ∧ o.relinked w.core t T.disconnects = [] := by
  obtain ⟨hd, hoff⟩ : T.disconnects = [] ∧ T.connectionState = .offline := by
    simpa [ATransport.InUse] using hu
  have hnone {x : SockId} {b : ASocket} (hb : w.core.sockets x = some b)
      (hkb : b.kind = .remoteSocket) : b.transport ≠ some t :=
    fun ht => hgr.no_remote hT hd hb hkb ht
  cases o with
  | send t' T₀ q =>
      obtain ⟨p₀, rfl, -⟩ := hm
      have ht : t' ≠ t := fun h => hk p₀ (by rw [h])
      simp [pushed, relinked, ht, hd]
  | sendList _ t' T₀ q =>
      obtain ⟨-, -, -, x, b, hb, hkb, hbt⟩ := hg
      have ht : t' ≠ t := fun h => hnone hb hkb (h ▸ hbt)
      simp [pushed, relinked, ht, hd]
  | readWrte _ _ t' T₀ q =>
      obtain ⟨-, -, -, -, -, x, b, -, hb, hkb, hbt⟩ := hg
      have ht : t' ≠ t := fun h => hnone hb hkb (h ▸ hbt)
      simp [pushed, relinked, ht, hd]
  | rig _ _ _ _ t' T₀ q =>
      have ht : t' ≠ t := by
        rintro rfl
        obtain rfl := Option.some.inj (hT.symm.trans hg.2.2.2.2.2.1)
        exact hm.2.2.1 hoff
      simp [pushed, relinked, ht, hd]
  | openStream d =>
      obtain ⟨p₀, rfl, -⟩ := hm
      have ht : d.t ≠ t := fun h => hk p₀ (by rw [h])
      simp [pushed, relinked, ht, hd]
  | attach _ _ _ t' T₀ m =>
      obtain ⟨⟨p₀, rfl, -⟩, -⟩ := hm
      have ht : t' ≠ t := fun h => hk p₀ (by rw [h])
      simp [pushed, relinked, ht, hd]
  | wrteDone t' _ b T₀ m q =>
      obtain ⟨⟨⟨p₀, rfl, -⟩, -⟩, -⟩ := hm
      have ht : t' ≠ t := fun h => hk p₀ (by rw [h])
      simp [pushed, relinked, ht, hd]
  | drainReady _ b d far =>
      obtain ⟨-, -, -, -, -, -, x, b', -, hb, hfar⟩ := hg
      obtain ⟨-, rfl⟩ | ⟨hkb, t', T₀, hbt, -, rfl⟩ := hfar
      · simp [pushed, relinked, hd]
      · have ht : t' ≠ t := fun h => hnone hb hkb (h ▸ hbt)
        simp [pushed, relinked, ht, hd]
  | close d =>
      obtain ⟨-, -, -, -, hlive⟩ := hg
      cases hrem : d.remote with
      | none => simp [pushed, relinked, hrem, hd]
      | some r =>
          obtain ⟨x, t'⟩ := r
          have ht : t' ≠ t := by
            rintro rfl
            simp only [Close.remote] at hrem
            split at hrem
            · next o b hfar =>
              split at hrem
              · next hkb =>
                obtain ⟨t'', hbt, heq⟩ := Option.map_eq_some_iff.mp hrem
                obtain ⟨rfl, rfl⟩ := Prod.mk.inj heq
                exact hnone (hlive _ b hfar) hkb hbt
              · cases hrem
            · cases hrem
          simp [pushed, relinked, hrem, ht, hd]
  | _ => exact ⟨rfl, hd⟩

/-- What the handlers of other things make of the record of a transport: some packets are sent
on it, none of them a `SYNC`, and nothing happens to a transport that is not in use. -/
structure ATransport.Beside (T T' : ATransport) : Prop where
  eq : ∃ new d, T' = { T with mainToIo := T.mainToIo ++ new, disconnects := d } ∧
    ∀ p ∈ new, p.msg.command ≠ A_SYNC
  idle : ¬T.InUse → T' = T

theorem ATransport.Beside.refl (T : ATransport) : T.Beside T :=
  ⟨⟨[], T.disconnects, by simp, by simp⟩, fun _ => rfl⟩

/-- **What the handlers of other things do to a transport.** -/
theorem Ops.other_turn (h : Ops (k.May c₀) w w') (hw : WF w) (hk : ¬k.About t)
    (hT : w.core.transports t = some T) :
    ∃ T', w'.core.transports t = some T' ∧ T.Beside T' := by
  refine (h.invariant (I := fun v => WF v ∧
    ∃ T', v.core.transports t = some T' ∧ T.Beside T') ⟨hw, T, hT, .refl T⟩ ?_).2
  rintro v o ⟨hv, T₁, hT₁, ⟨new, d, heq, hnew⟩, hidle⟩ hg hmay
  refine ⟨hv.op hg, o.turn v.core t T₁, ?_, ?_⟩
  · rw [Op.apply_core, Op.effect_transports hg, hT₁]
    · rfl
    · rintro type rfl
      exact hk (by rw [show k = .register t from hmay]; rfl)
    · rintro T₀ rfl
      exact hk (by rw [show k = .remove t from hmay]; rfl)
  · rw [Op.turn_other hmay hk]
    refine ⟨⟨new ++ o.pushed v.core t, o.relinked v.core t T₁.disconnects, ?_, ?_⟩,
      fun hu => ?_⟩
    · rw [heq]
      simp
    · intro p hp
      rcases List.mem_append.mp hp with hp | hp
      · exact hnew p hp
      · rcases Op.pushed_command hmay hg hp with hne | ⟨p₀, rfl, -⟩
        · exact hne
        · exact absurd rfl hk
    · obtain rfl := hidle hu
      have hkp (p : APacket) : k ≠ .packet t p := fun h => hk (by rw [h]; rfl)
      obtain ⟨hpush, hlink⟩ := Op.pushed_idle hv.graph hmay hg hkp hT₁ hu
      rw [hpush, hlink, List.append_nil]
      have hd : T₁.disconnects = [] := by
        by_contra hne
        exact hu (.inl hne)
      rw [← hd]

/-! ### The handlers of a packet of its own -/

/-- What the handler of a packet other than `SYNC` does to its transport. -/
theorem Ops.own_turn (h : Ops ((Task.packet t p).May c₀) w w') (hc : p.msg.command ≠ A_SYNC)
    (hT : w.core.transports t = some T) (hp : p.addr ∉ addrs T.ioToMain) :
    ∃ T' new, w'.core.transports t = some T' ∧ T'.ioToMain = T.ioToMain ∧
      T'.pipesOpen = T.pipesOpen ∧ T'.mainToIo = T.mainToIo ++ new ∧
      ∀ q ∈ new, q.msg.command ≠ A_SYNC := by
  refine h.invariant (I := fun v => ∃ T' new, v.core.transports t = some T' ∧
    T'.ioToMain = T.ioToMain ∧ T'.pipesOpen = T.pipesOpen ∧ T'.mainToIo = T.mainToIo ++ new ∧
      ∀ q ∈ new, q.msg.command ≠ A_SYNC) ⟨T, [], hT, rfl, rfl, by simp, by simp⟩ ?_
  rintro v o ⟨T₁, new, hT₁, hmain, hpipe, hio, hnew⟩ hg hmay
  have hturn : (o.apply v).core.transports t = some (o.turn v.core t T₁) := by
    rw [Op.apply_core, Op.effect_transports hg, hT₁]
    · rfl
    · rintro type rfl
      cases hmay
    · rintro T₀ rfl
      cases hmay
  have hpush : ∀ q ∈ new ++ o.pushed v.core t, q.msg.command ≠ A_SYNC := by
    intro q hq
    rcases List.mem_append.mp hq with hq | hq
    · exact hnew q hq
    · rcases Op.pushed_command hmay hg hq with hne | ⟨p₀, hk, hp₀, -⟩
      · exact hne
      · obtain ⟨-, rfl⟩ := Task.packet.inj hk
        exact absurd hp₀ hc
  cases o with
  | conn t' T₀ online state quals =>
      refine ⟨_, new, hturn, ?_⟩
      simp only [Op.turn]
      split <;> exact ⟨hmain, hpipe, hio, hnew⟩
  | popMain t' T₀ q rest =>
      obtain ⟨rfl, rfl⟩ := Task.packet.inj hmay
      obtain rfl := Option.some.inj (hT₁.symm.trans hg.1)
      exact absurd (by simp [← hmain, hg.2]) hp
  | popIo | post | closePipes => cases hmay
  | _ =>
      refine ⟨_, _, hturn, hmain, hpipe, ?_, hpush⟩
      simp [Op.turn, hio]

/-! ### The steps of the daemon as moves of a transport -/

instance (T : ATransport) : Decidable T.InUse := by
  unfold ATransport.InUse; infer_instance

/-- A transport, as its two threads and the main loop have it. -/
def Life.link (l : Life) (T : ATransport) : Link where
  out := l.out
  inp := l.inp
  token := l.syncToken
  active := l.active
  toRemote := l.toRemote
  toMain := T.ioToMain.map (·.msg)
  toIo := T.mainToIo
  inUse := decide T.InUse
  pipesOpen := T.pipesOpen

/-- What the handlers of other things send. -/
theorem ATransport.Beside.spare (h : T.Beside T') (l : Life) : ∃ new,
    (l.link T).Spare new (decide T'.InUse) ∧
      l.link T' =
        { l.link T with toIo := (l.link T).toIo ++ new, inUse := decide T'.InUse } := by
  obtain ⟨new, d, heq, hnew⟩ := h.eq
  refine ⟨new, ⟨hnew, fun hu => ?_⟩, ?_⟩
  · have hidle : ¬T.InUse := by simpa [Life.link] using hu
    have hsame := h.idle hidle
    rw [hsame] at heq ⊢
    have hlen : T.mainToIo = T.mainToIo ++ new := congrArg ATransport.mainToIo heq
    exact ⟨by simpa using hlen, by simpa using hidle⟩
  · simp [Life.link, heq]

/-- A packet that was accepted is echoed as it is. -/
theorem APacket.finish_of_accepted (h : Accepted p.msg p.data) : p.finish = p := by
  obtain ⟨hmagic, -, -, hcheck⟩ := h
  rw [APacket.finish, ← hmagic, ← hcheck]

/-- The main loop handles a packet of `t`. -/
theorem step_packet {io : Io} (hr : Reachable s) (hs : step s (.dispatch io) = .ok s')
    (hk : s.task (.dispatch io) = .packet t p) (hT : s.core.transports t = some T) (l : Life) :
    ∃ T' new, s'.core.transports t = some T' ∧ (l.link T).Step (.sends new) (l.link T') := by
  obtain ⟨c, hh⟩ := System.exists_handles hk
  have hrun := hh.step_eq.symm.trans hs
  have hwf := hh.wf hr.wf
  obtain ⟨c₁, T₀, rest, hreads, hT₀, ho, hq, hc⟩ := hh
  rw [hreads.transports_eq] at hT₀
  obtain rfl := Option.some.inj (hT₀.symm.trans hT)
  have hcT : c.transports t = some { T₀ with ioToMain := rest } := by
    rw [hc]
    simp [Core.putTransport]
  have hpipe : T₀.pipesOpen = true := Core.pipesOpen_of_canRead ho
  have hopen : c.PipesOpen t := by
    intro T₁ hT₁
    obtain rfl := Option.some.inj (hcT.symm.trans hT₁)
    exact hpipe
  have hacc : Accepted p.msg p.data := hr.accepted hT (by simp [hq])
  have hmain : (l.link T₀).toMain = p.msg :: rest.map (·.msg) := by simp [Life.link, hq]
  have hmem : p.addr ∈ (Work.mk c [p.addr]).hand := by simp
  by_cases hsync : p.msg.command = A_SYNC
  · have hdoes : Does ((Task.packet t p).May c) ⟨c, [p.addr]⟩ (handlePacket p t) fun _ w' =>
        ∃ T, c.transports t = some T ∧ w'.core.transports t = some (T.synced p) := by
      rw [handlePacket]
      refine .getTransport fun T _ => ?_
      rw [if_pos hsync]
      exact (Does.handleSync hmem hsync hopen).mono fun _ _ _ h => h.2
    obtain ⟨H, -, T₁, hT₁, hT'⟩ := System.run_does (hdoes hwf) hrun
    obtain rfl := Option.some.inj (hcT.symm.trans hT₁)
    refine ⟨_, [p], hT', ?_⟩
    have heq : l.link (ATransport.synced { T₀ with ioToMain := rest } p) =
        { l.link T₀ with
          toMain := rest.map (·.msg), toIo := (l.link T₀).toIo ++ [p]
          inUse := decide (ATransport.synced { T₀ with ioToMain := rest } p).InUse } := by
      rw [ATransport.synced]
      split <;> simp [Life.link, APacket.finish_of_accepted hacc]
    rw [heq]
    refine .echo hpipe hmain hsync fun h0 => ?_
    simp [ATransport.synced, h0, ATransport.InUse]
  · obtain ⟨H, hops, -⟩ := System.run_does (Does.handlePacket hmem hopen hwf) hrun
    have hnodup := hr.wf.pkts.nodup (.toMain t)
    simp only [Work.ledger, Work.held, hT, Option.elim_some, hq, addrs_cons,
      List.nodup_cons] at hnodup
    obtain ⟨T', new, hT', hmain', hopen', hio', hnew⟩ := hops.own_turn hsync hcT hnodup.1
    refine ⟨T', new, hT', ?_⟩
    have heq : l.link T' =
        { l.link T₀ with
          toMain := rest.map (·.msg), toIo := (l.link T₀).toIo ++ new
          inUse := decide T'.InUse } := by
      simp [Life.link, hmain', hopen', hio']
    rw [heq]
    exact .handle hpipe hmain hsync hnew

/-- A packet is posted. -/
theorem run_postToMain {m : AMessage} {data : List UInt8} (hT : s.core.transports t = some T)
    (h : s.run (postToMain t m data) = .ok s') : s'.life = s.life ∧
      ∃ p : APacket, p.msg = m ∧
        s'.core.transports t = some { T with ioToMain := T.ioToMain ++ [p] } := by
  refine ⟨(System.run_same h).1, ?_⟩
  have hwp : wp (postToMain t m data) (fun _ c' => ∃ p : APacket, p.msg = m ∧
      c'.transports t = some { T with ioToMain := T.ioToMain ++ [p] })
        (fun _ => True) s.core := by
    rw [postToMain, wp_bind, wp_getApacket]
    refine (wp_modTransport_of (by exact hT)).mpr
      ⟨{ addr := s.core.nextPkt, msg := m, data := data },
      rfl, ?_⟩
    simp [Core.putTransport]
  exact System.run_does hwp h

/-- A packet is read. -/
theorem run_takeFromMain {rest : List APacket} (hw : WF ⟨s.core, []⟩)
    (hT : s.core.transports t = some T) (hq : T.mainToIo = p :: rest)
    (h : s.run (takeFromMain t) = .ok s') : s'.life = s.life ∧
      s'.core.transports t = some { T with mainToIo := rest } := by
  refine ⟨(System.run_same h).1, ?_⟩
  have hlive : s.core.livePkts p.addr = true := by
    refine hw.pkts.live (o := .toIo t) ?_
    simp [Work.ledger, Work.held, hT, hq]
  have hwp :
    wp (takeFromMain t) (fun _ c' => c'.transports t = some { T with mainToIo := rest })
      (fun _ => True) s.core := by
    rw [takeFromMain, wp_bind]
    refine (wp_getTransport_of hT).mpr ?_
    rw [hq, wp_bind]
    refine (wp_modTransport_of hT).mpr ((wp_putApacket (by exact hlive)).mpr ?_)
    simp [Core.freePkts, Core.putTransport]
  exact System.run_does hwp h

/-- Dropping a reference moves neither thread. -/
theorem Life.unrefLocked_same (l : Life) : (l.unrefLocked.2.out = l.out ∧
    l.unrefLocked.2.inp = l.inp ∧ l.unrefLocked.2.syncToken = l.syncToken ∧
    l.unrefLocked.2.active = l.active ∧ l.unrefLocked.2.toRemote = l.toRemote) ∧
    (l.unrefLocked.1 = true → l.refCount = 1) := by
  rw [Life.unrefLocked]
  dsimp only
  split
  · next h =>
    refine ⟨?_, fun _ => by omega⟩
    split <;> exact ⟨rfl, rfl, rfl, rfl, rfl⟩
  · exact ⟨⟨rfl, rfl, rfl, rfl, rfl⟩, by simp⟩

/-- A thread drops its reference, and the last one closes the pipes of a TCP transport. -/
theorem transportUnref_link (hT : s.core.transports t = some T) : ∃ l' b,
    (s.transportUnref t l).life t = some l' ∧
      (s.transportUnref t l).core.transports t = some { T with pipesOpen := b } ∧
      l'.link { T with pipesOpen := b } = { l.link T with pipesOpen := b } ∧
      (b = false → T.pipesOpen = false ∨ l.refCount = 1) := by
  obtain ⟨hsame, hone⟩ := l.unrefLocked_same
  rw [System.transportUnref]
  generalize l.unrefLocked = r at hsame hone
  obtain ⟨last, l'⟩ := r
  obtain ⟨hout, hinp, htok, hact, hrem⟩ := hsame
  dsimp only at hout hinp htok hact hrem
  have hlink (b : Bool) : l'.link { T with pipesOpen := b } =
    { l.link T with pipesOpen := b } := by
    simp only [Life.link, hout, hinp, htok, hact, hrem]
    rfl
  cases last with
  | false => exact ⟨l', T.pipesOpen, by simp [System.setLife], hT, hlink _, .inl⟩
  | true =>
      dsimp only
      split
      · next T₀ _ hT₀ =>
        obtain rfl := Option.some.inj (hT₀.symm.trans hT)
        exact ⟨l', false, by simp [System.setLife], by simp [Core.putTransport], hlink _,
          fun _ => .inr (hone rfl)⟩
      · exact ⟨l', T.pipesOpen, by simp [System.setLife], hT, hlink _, .inl⟩

/-- Posting a packet, as a move. -/
theorem Life.link_post (l : Life) (T : ATransport) (p : APacket) :
    l.link { T with ioToMain := T.ioToMain ++ [p] } =
      { l.link T with toMain := (l.link T).toMain ++ [p.msg] } := by
  simp [Life.link, ATransport.InUse]

/-- The action is the input thread of `t` taking a packet out of its pipe. -/
def System.takes (s : System) (t : TId) : Action → Bool
  | .input t' false => t' = t && (s.life t).any (·.inp = .reading)
  | _ => false

/-- What an action of the daemon can be for the transport `t`. -/
def Link.Event.Fits (e : Link.Event) (s : System) (t : TId) (a : Action) : Prop :=
  match e with
  | .takes _ => s.takes t a = true
  | .receives m => s.takes t a = false ∧ ∃ data, a = .output t (some (m, data)) false
  | .fails => s.takes t a = false ∧ a = .input t true
  | .sends _ | .silent => s.takes t a = false

/-- **A step of `output_thread` is a move of its transport.** -/
theorem step_output {r : Option (AMessage × List UInt8)} {fails : Bool} (hok : l.Ok)
    (hl : s.life t = some l) (hT : s.core.transports t = some T)
    (h : outputThread s t l r fails = .ok s') : ∃ l' T' e, s'.life t = some l' ∧
      s'.core.transports t = some T' ∧ (l.link T).Step e (l'.link T') ∧
      e.Fits s t (.output t r fails) := by
  -- a thread that only moves
  have hset {l' : Life} (h : (.ok (s.setLife t l') : Except Stop System) = .ok s')
      (hm : (l.link T).Step .silent (l'.link T)) : ∃ l' T' e,
      s'.life t = some l' ∧ s'.core.transports t = some T' ∧ (l.link T).Step e (l'.link T') ∧
      e.Fits s t (.output t r fails) := by
    obtain rfl := Except.ok.inj h
    exact ⟨l', T, .silent, by simp [System.setLife], hT, hm, rfl⟩
  have hleave {pc : OutPc} (hp : l.out.Past) (hpc : pc.Past) :
      (l.link T).Step .silent { l.link T with out := pc } :=
    .leaveOut (b := T.pipesOpen) hp hpc .inl
  cases hpc : l.out with
  | sync =>
      simp only [outputThread, hpc] at h
      split at h
      · exact hset h (.syncFails hpc)
      · obtain ⟨hlife, p, hp, hT'⟩ := run_postToMain (by exact hT) h
        refine ⟨_, _, .silent, by rw [hlife]; exact Function.update_self .., hT', ?_, rfl⟩
        rw [Life.link_post, hp]
        exact .sync hpc
  | pump =>
      simp only [outputThread, hpc] at h
      split at h
      · exact hset h (.lost hpc)
      · next m data =>
        split at h
        · split at h
          · exact hset h (.stop (.inl hpc))
          · next hf =>
            obtain ⟨hlife, p, rfl, hT'⟩ := run_postToMain hT h
            refine ⟨l, _, .receives p.msg, by rw [hlife, hl], hT', ?_, rfl, data, ?_⟩
            · rw [Life.link_post]
              exact .receive hpc
            · simpa using hf
        · exact hset h (.lost hpc)
  | offline =>
      simp only [outputThread, hpc] at h
      split at h
      · exact hset h (.stop (.inr hpc))
      · obtain ⟨hlife, p, hp, hT'⟩ := run_postToMain (by exact hT) h
        refine ⟨_, _, .silent, by rw [hlife]; exact Function.update_self .., hT', ?_, rfl⟩
        rw [Life.link_post, hp]
        exact .offline hpc
  | kickTest =>
      simp only [outputThread, hpc] at h
      refine hset h (hleave (by simp [hpc, OutPc.Past]) ?_)
      split <;> simp [OutPc.Past]
  | kickLock =>
      simp only [outputThread, hpc, Life.kickLocked] at h
      split at h
      · exact hset h (hleave (by simp [hpc, OutPc.Past]) (by simp [OutPc.Past]))
      · exact hset h (hleave (by simp [hpc, OutPc.Past]) (by simp [OutPc.Past]))
  | kickCall =>
      simp only [outputThread, hpc] at h
      exact hset h (hleave (by simp [hpc, OutPc.Past]) (by simp [OutPc.Past]))
  | unref =>
      simp only [outputThread, hpc] at h
      obtain rfl := Except.ok.inj h
      obtain ⟨l', b, hl', hT', hlink, hb⟩ :=
        transportUnref_link (l := { l with out := .done }) hT
      refine ⟨l', _, .silent, hl', hT', ?_, rfl⟩
      rw [hlink]
      refine .leaveOut ?_ ?_ fun hf => ?_
      · simp [Life.link, hpc, OutPc.Past]
      · simp [Life.link, OutPc.Past]
      · refine (hb hf).imp_right fun h1 => ⟨rfl, ?_⟩
        have href := hok.ref
        rw [show l.refCount = 1 from h1, hpc] at href
        by_contra hn
        simp [one, show l.inp ≠ .done from hn] at href
  | done => simp [outputThread, hpc] at h

/-- The input thread takes a packet, as a move. -/
theorem Life.link_input (l : Life) (T : ATransport) (p : APacket) (rest : List APacket) :
    (inputPacket l p).link { T with mainToIo := rest } =
      { (l.link T).input p with toIo := rest } := by
  by_cases hc : p.msg.command = A_SYNC
  · by_cases h0 : p.msg.arg0 = 0
    · simp [inputPacket, Link.input, Life.link, ATransport.InUse, hc, h0]
    · by_cases ht : p.msg.arg1 = l.syncToken
      · simp [inputPacket, Link.input, Life.link, ATransport.InUse, hc, h0, ht]
      · simp [inputPacket, Link.input, Life.link, ATransport.InUse, hc, h0, ht]
  · by_cases ha : l.active = true
    · simp [inputPacket, Link.input, Life.link, ATransport.InUse, hc, ha]
    · simp [inputPacket, Link.input, Life.link, ATransport.InUse, hc, ha]

/-- **A step of `input_thread` is a move of its transport.** -/
theorem step_input {fails : Bool} (hr : Reachable s) (hok : l.Ok) (hl : s.life t = some l)
    (hT : s.core.transports t = some T) (h : inputThread s t l fails = .ok s')
    (hc : l.inp = .closeAll → ∃ T', s'.core.transports t = some T' ∧ T.Beside T') :
    ∃ l' T' e, s'.life t = some l' ∧ s'.core.transports t = some T' ∧
      (l.link T).Step e (l'.link T') ∧ e.Fits s t (.input t fails) := by
  have hidle (hi : l.inp ≠ .reading) : s.takes t (.input t fails) = false := by
    cases fails <;> simp [System.takes, hl, hi]
  -- a thread that has left its loop, and moves on
  have hleave {pc : InPc} {l' : Life}
    (h : (.ok (s.setLife t l') : Except Stop System) = .ok s')
      (hi : l.inp ≠ .reading) (hpc : pc ≠ .reading)
      (hlink : l'.link T = { l.link T with inp := pc }) : ∃ l' T' e, s'.life t = some l' ∧
      s'.core.transports t = some T' ∧ (l.link T).Step e (l'.link T') ∧
      e.Fits s t (.input t fails) := by
    obtain rfl := Except.ok.inj h
    refine ⟨l', T, .silent, by simp [System.setLife], hT, ?_, hidle hi⟩
    rw [hlink]
    exact .leaveIn (b := T.pipesOpen) hi hpc .inl
  cases hpc : l.inp with
  | reading =>
      simp only [inputThread, hpc] at h
      split at h
      · next hf =>
        obtain rfl := Except.ok.inj h
        subst hf
        exact ⟨_, T, .fails, Function.update_self .., hT, .fail hpc, rfl, rfl⟩
      · next hf =>
        obtain rfl : fails = false := by simpa using hf
        rw [hT] at h
        dsimp only at h
        split at h
        · cases h
        · next p rest hq =>
          obtain ⟨hlife, hT'⟩ := run_takeFromMain (by exact hr.wf) (by exact hT) hq h
          refine ⟨_, _, .takes p, by rw [hlife]; exact Function.update_self .., hT', ?_, ?_⟩
          · rw [Life.link_input]
            exact .take hpc (by simp [Life.link, hq])
          · simp [Link.Event.Fits, System.takes, hl, hpc]
  | closeAll =>
      simp only [inputThread, hpc] at h
      obtain ⟨T', hT', hbeside⟩ := hc hpc
      obtain ⟨new, hspare, hlink⟩ := hbeside.spare l
      refine ⟨{ l with inp := .kickTest }, T', .sends new, ?_, hT', ?_, hidle (by simp [hpc])⟩
      · rw [(System.run_same h).1]
        exact Function.update_self ..
      · have heq : Life.link { l with inp := .kickTest } T' =
          { l.link T' with inp := .kickTest } := rfl
        rw [heq, hlink]
        exact .closeAll hpc hspare
  | kickTest =>
      simp only [inputThread, hpc] at h
      refine hleave h (by simp [hpc]) ?_ rfl
      split <;> simp
  | kickLock =>
      simp only [inputThread, hpc, Life.kickLocked] at h
      split at h
      · exact hleave h (by simp [hpc]) (by simp) rfl
      · exact hleave h (by simp [hpc]) (by simp) rfl
  | kickCall =>
      simp only [inputThread, hpc] at h
      exact hleave h (by simp [hpc]) (by simp) rfl
  | unref =>
      simp only [inputThread, hpc] at h
      obtain rfl := Except.ok.inj h
      obtain ⟨l', b, hl', hT', hlink, hb⟩ :=
        transportUnref_link (l := { l with inp := .done }) hT
      refine ⟨l', _, .silent, hl', hT', ?_, hidle (by simp [hpc])⟩
      rw [hlink]
      refine .leaveIn ?_ ?_ fun hf => ?_
      · simp [Life.link, hpc]
      · simp [Life.link]
      · refine (hb hf).imp_right fun h1 => ⟨rfl, ?_⟩
        have href := hok.ref
        rw [show l.refCount = 1 from h1, hpc] at href
        by_contra hn
        simp [one, show l.out ≠ .done from hn] at href
  | done => simp [inputThread, hpc] at h

/-- The handlers of other things, as a move. -/
theorem link_beside (hr : Reachable s) (hs : step s a = .ok s') (hk : ¬(s.task a).About t)
    (hT : s.core.transports t = some T) (hT' : s'.core.transports t = some T') (l : Life) :
    ∃ new, (l.link T).Step (.sends new) (l.link T') := by
  obtain ⟨T₁, hT₁, hbeside⟩ := (step_ops hr.wf hr.lives.unregistered hs).other_turn hr.wf hk hT
  obtain rfl := Option.some.inj (hT₁.symm.trans hT')
  obtain ⟨new, hspare, hlink⟩ := hbeside.spare l
  rw [hlink]
  exact ⟨new, .spare hspare⟩

/-- **A callback of the main loop is a move of every transport that stays.** -/
theorem step_callback {io : Io} (hr : Reachable s) (hs : step s (.dispatch io) = .ok s')
    (hl : s.life t = some l) (hT : s.core.transports t = some T)
    (hT' : s'.core.transports t = some T') :
    s'.life t = some l ∧ ∃ new, (l.link T).Step (.sends new) (l.link T') := by
  obtain ⟨k, rest, hp, htask, hcb⟩ := step_dispatch hs
  have hmain := s.callbackTask_ofMain io k (s.core.loop.fdes k).events
  have hsame := s.taken_callbackTask io k rest
  rw [← htask] at hmain hsame
  rcases callback_cases hcb with ⟨hne, hlife, -, -⟩ | ⟨m, rest', l₀, hpipe, hl₀, hm⟩
  · refine ⟨by rw [hlife]; exact hl, ?_⟩
    have hreg := hne t
    by_cases hk : (s.task (.dispatch io)).About t
    · cases htask' : s.task (.dispatch io) with
      | packet t' p =>
          obtain rfl : t' = t := by rw [htask'] at hk; exact hk
          obtain ⟨T₁, new, hT₁, hstep⟩ := step_packet hr hs htask' hT l
          obtain rfl := Option.some.inj (hT₁.symm.trans hT')
          exact ⟨new, hstep⟩
      | register t' =>
          obtain rfl : t' = t := by rw [htask'] at hk; exact hk
          exact absurd (hsame.trans htask') hreg.1
      | remove t' =>
          obtain rfl : t' = t := by rw [htask'] at hk; exact hk
          exact absurd (hsame.trans htask') hreg.2
      | unref | post | pop => rw [htask'] at hmain; exact hmain.elim
      | idle | select | write | read | accept | jdwp | closeAll =>
          rw [htask'] at hk
          exact hk.elim
    · exact link_beside hr hs hk hT hT' l
  · obtain ⟨t', b⟩ := m
    by_cases ht : t' = t
    · -- the transport itself is registered or removed: it was not there, or is gone
      subst ht
      rcases hm with ⟨rfl, -, -⟩ | ⟨rfl, -, hrun⟩
      · have hnone := hr.lives.unregistered ⟨t', true⟩ (by
          rw [show s.regPipe = _ from hpipe]
          exact List.mem_cons_self ..) rfl
        rw [hT] at hnone
        cases hnone
      · have hr' : Reachable s' := Trans.Runs.tail hr trivial hs
        have hlife : s'.life t' = some { l₀ with freed := true } := by
          rw [(System.run_same hrun).1]
          exact Function.update_self ..
        have hfreed := ((hr'.lives.tracked t' _ hlife).has.1.mp (by simp [hT'])).2
        cases hfreed
    · have hlife : s'.life t = some l := by
        rcases hm with ⟨-, -, hrun⟩ | ⟨-, -, hrun⟩
        all_goals
          rw [(System.run_same hrun).1]
          simpa [System.setLife, Ne.symm ht] using hl
      refine ⟨hlife, link_beside hr hs ?_ hT hT' l⟩
      rcases hm with ⟨-, hk, -⟩ | ⟨-, hk, -⟩
      all_goals
        rw [hsame.symm.trans hk]
        exact ht

/-- The sections of a thread are about its own transport. -/
theorem Life.outTask_about {t' : TId} {r : Option (AMessage × List UInt8)}
    (h : (l.outTask t' r).About t) : t' = t := by
  unfold Life.outTask at h
  split at h
  · exact h
  · split at h
    · split at h
      · exact h
      · exact h.elim
    · exact h.elim
  · exact h
  · exact h
  all_goals exact h.elim

theorem InPc.task_about {t' : TId} {pc : InPc} (h : (pc.task t').About t) : t' = t := by
  cases pc with
  | reading | unref => exact h
  | closeAll | kickTest | kickLock | kickCall | done => exact h.elim

/-- The thread of another transport moved. -/
theorem ThreadStep.other {t' : TId} {l₀ : Life} (h : ThreadStep s s' t' l₀) (ht : t' ≠ t)
    (hl : s.life t = some l) : s'.life t = some l := by
  obtain ⟨l', b, -, hlife, -⟩ := h
  rw [hlife]
  simpa [Ne.symm ht] using hl

/-- **Every step of the daemon is a move of every transport that stays.** -/
theorem step_link (hr : Reachable s) (hs : step s a = .ok s') (hl : s.life t = some l)
    (hT : s.core.transports t = some T) (hT' : s'.core.transports t = some T') :
    ∃ l' e, s'.life t = some l' ∧ (l.link T).Step e (l'.link T') ∧ e.Fits s t a := by
  have htr := hr.lives.tracked t l hl
  cases a with
  | register type =>
      obtain ⟨new, hmove⟩ := link_beside hr hs (by exact id) hT hT' l
      obtain rfl := Except.ok.inj hs
      have hne : t ≠ s.nextT := by
        rintro rfl
        simp [hr.lives.fresh _ (Nat.le_refl _)] at hl
      exact ⟨l, _, by simpa [System.setLife, hne] using hl, hmove, rfl⟩
  | select ready =>
      obtain ⟨new, hmove⟩ := link_beside hr hs (by exact id) hT hT' l
      obtain rfl := step_select hs
      exact ⟨l, _, hl, hmove, rfl⟩
  | dispatch io =>
      obtain ⟨hlife, new, hmove⟩ := step_callback hr hs hl hT hT'
      exact ⟨l, _, hlife, hmove, rfl⟩
  | output t' r fails =>
      obtain ⟨l₀, hl₀, hst, hstep⟩ := step_outputThread hs
      by_cases ht : t' = t
      · subst ht
        obtain rfl := Option.some.inj (hl₀.symm.trans hl)
        obtain ⟨l', T₁, e, hl', hT₁, hmove, hfits⟩ := step_output (htr.ok hst) hl hT hstep
        obtain rfl := Option.some.inj (hT₁.symm.trans hT')
        exact ⟨l', e, hl', hmove, hfits⟩
      · have hthread := threadStep_output hl₀ ((hr.lives.tracked t' l₀ hl₀).ok hst) hstep
        have hk : ¬(s.task (.output t' r fails)).About t := by
          simpa [System.task, hl₀] using fun h => ht (Life.outTask_about h)
        obtain ⟨new, hmove⟩ := link_beside hr hs hk hT hT' l
        exact ⟨l, _, hthread.other ht hl, hmove, rfl⟩
  | input t' fails =>
      obtain ⟨l₀, hl₀, hst, hstep⟩ := step_inputThread hs
      by_cases ht : t' = t
      · subst ht
        obtain rfl := Option.some.inj (hl₀.symm.trans hl)
        have hclose (hi : l₀.inp = .closeAll) :
            ∃ T', s'.core.transports t' = some T' ∧ T.Beside T' := by
          refine (step_ops hr.wf hr.lives.unregistered hs).other_turn hr.wf ?_ hT
          rw [System.task, hl, Option.elim, hi]
          exact id
        obtain ⟨l', T₁, e, hl', hT₁, hmove, hfits⟩ :=
          step_input hr (htr.ok hst) hl hT hstep hclose
        obtain rfl := Option.some.inj (hT₁.symm.trans hT')
        exact ⟨l', e, hl', hmove, hfits⟩
      · have hthread := threadStep_input ((hr.lives.tracked t' l₀ hl₀).ok hst) hstep
        have hk : ¬(s.task (.input t' fails)).About t := by
          simpa [System.task, hl₀] using fun h => ht (InPc.task_about h)
        obtain ⟨new, hmove⟩ := link_beside hr hs hk hT hT' l
        refine ⟨l, _, hthread.other ht hl, hmove, ?_⟩
        cases fails <;> simp [Link.Event.Fits, System.takes, ht]

/-- The handlers that only a callback of the main loop runs. -/
def Task.OfLoop : Task → Prop
  | .write _ | .read _ | .packet .. | .accept | .jdwp | .register _ | .remove _ => True
  | _ => False

theorem System.dispatch_of_task (h : (s.task a).OfLoop) : ∃ io, a = .dispatch io := by
  cases a with
  | dispatch io => exact ⟨io, rfl⟩
  | register | select => exact h.elim
  | output t' r fails =>
      rw [System.task] at h
      cases hl : s.life t' with
      | none => simp [hl, Task.OfLoop] at h
      | some l =>
          simp only [hl, Option.elim, Life.outTask] at h
          split at h
          · exact h.elim
          · split at h
            · split at h <;> exact h.elim
            · exact h.elim
          all_goals exact h.elim
  | input t' fails =>
      rw [System.task] at h
      cases hl : s.life t' with
      | none => simp [hl, Task.OfLoop] at h
      | some l =>
          simp only [hl, Option.elim] at h
          cases hi : l.inp with
          | reading | closeAll | kickTest | kickLock | kickCall | unref | done =>
              rw [hi] at h
              exact h.elim

/-- A transport comes up when its register message is handled. -/
theorem task_register (hr : Reachable s) (hs : step s a = .ok s')
    (hT : s.core.transports t = none) (hT' : s'.core.transports t = some T') :
    s.task a = .register t ∨ s.task a = .remove t := by
  by_contra hne
  have hops := step_ops hr.wf hr.lives.unregistered hs
  have hsame := (hops.otherTransport (t := t) (not_or.mp hne)).1.mpr hT
  simp [hT'] at hsame

/-- **A transport that is new starts at the start.** -/
theorem step_link_start (hr : Reachable s) (hs : step s a = .ok s')
    (hT : s.core.transports t = none) (hT' : s'.core.transports t = some T') :
    ∃ l', s'.life t = some l' ∧ l'.link T' = Link.start ∧
      ∀ l, s.life t = some l → l.started = false := by
  have htask := task_register hr hs hT hT'
  obtain ⟨io, rfl⟩ : ∃ io, a = .dispatch io := by
    refine s.dispatch_of_task ?_
    rcases htask with h | h <;> rw [h] <;> trivial
  obtain ⟨k, rest, hp, htask', hcb⟩ := step_dispatch hs
  have hsame := (s.taken_callbackTask io k rest).trans htask'.symm
  rcases callback_cases hcb with ⟨hne, -⟩ | ⟨m, rest', l, hpipe, hl, hm⟩
  · exact absurd htask (not_or.mpr ⟨fun h => (hne t).1 (hsame.trans h),
      fun h => (hne t).2 (hsame.trans h)⟩)
  · obtain ⟨t', b⟩ := m
    rcases hm with ⟨rfl, hk, hrun⟩ | ⟨rfl, hk, hrun⟩
    · obtain rfl : t' = t := by simpa [hsame.symm.trans hk] using htask
      have hwait : l.started = false := by
        by_contra hst
        have hreg := (hr.lives.tracked t' l hl).toRegister
        rw [show s.regPipe = _ from hpipe] at hreg
        simp [one, hst] at hreg
      have hinit := (hr.lives.tracked t' l hl).waits hwait
      obtain rfl := Except.ok.inj hrun
      obtain rfl : { type := l.type } = T' := by simpa [Core.putTransport] using hT'
      refine ⟨_, Function.update_self .., ?_, fun l₀ hl₀ => ?_⟩
      · rw [hinit]
        rfl
      · obtain rfl := Option.some.inj (hl₀.symm.trans hl)
        exact hwait
    · obtain rfl : t' = t := by simpa [hsame.symm.trans hk] using htask
      have hr' : Reachable s' := Trans.Runs.tail hr trivial hs
      have hlife : s'.life t' = some { l with freed := true } := by
        rw [(System.run_same hrun).1]
        exact Function.update_self ..
      cases ((hr'.lives.tracked t' _ hlife).has.1.mp (by simp [hT'])).2

end Adbd
