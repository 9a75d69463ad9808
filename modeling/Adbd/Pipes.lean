import Adbd.Lifecycle

/-!
# The Pipes of a Transport

What an operation does to one transport: the packets it writes into the pipe to the input
thread, the remote sockets it links and unlinks, and the few operations that change
anything else. `Op.turn` says this as a function of the record of the transport, so that a
property of the records of transports is a matter of a case distinction.

## Main definitions

* `Op.pushed`: the packets written into the pipe to the input thread.
* `Op.relinked`: the disconnect list afterwards.
* `Op.turn`: the record of a transport afterwards.

## Main results

* `Op.effect_transports`: that is what the operation does.
* `Reachable.accepted`: the packets in the pipe to the main loop were accepted.
-/

namespace Adbd

open Program Custody

variable {c : Core} {w w' : Work} {o : Op} {t : TId} {T T' : ATransport} {s s' : System}

/-! ### The effect of an operation on one transport -/

namespace Op

/-- The packets an operation writes into the pipe to the input thread of `t`. -/
def pushed (c : Core) (t : TId) : Op → List APacket
  | .send t' _ p | .sendList _ t' _ p | .readWrte _ _ t' _ p => if t' = t then [p] else []
  | .rig _ _ _ _ t' _ p => if t' = t then [p c.nextPkt] else []
  | .openStream d =>
      if d.t = t then [ctlPacket c.nextPkt A_OKAY c.localSocketNextId d.remote] else []
  | .wrteDone t' _ a _ m _ => if t' = t then [ctlPacket c.nextPkt A_OKAY a.id m.arg0] else []
  | .drainReady _ a _ (some (t', _, id)) =>
      if t' = t then [ctlPacket c.nextPkt A_OKAY a.id id] else []
  | .close d =>
      match d.remote with
      | some (_, t') => if t' = t then d.clse c.nextPkt else []
      | none => []
  | _ => []

/-- The disconnect list of `t` after an operation. -/
def relinked (c : Core) (t : TId) (l : List SockId) : Op → List SockId
  | .openStream d => if d.t = t then l ++ [c.nextSock + 1] else l
  | .attach _ _ _ t' _ _ => if t' = t then l ++ [c.nextSock] else l
  | .close d =>
      match d.remote with
      | some (r, t') => if t' = t then l.erase r else l
      | none => l
  | _ => l

/-- The record of `t` after an operation that neither registers nor removes it. -/
def turn (c : Core) (t : TId) (T : ATransport) : Op → ATransport
  | .conn t' _ online state quals =>
      if t' = t then { T with online := online, connectionState := state, quals := quals }
        else T
  | .popMain t' _ _ rest => if t' = t then { T with ioToMain := rest } else T
  | .popIo t' _ _ rest => if t' = t then { T with mainToIo := rest } else T
  | .post t' _ p => if t' = t then { T with ioToMain := T.ioToMain ++ [p] } else T
  | .closePipes t' _ => if t' = t then { T with pipesOpen := false } else T
  | o => { T with
      mainToIo := T.mainToIo ++ o.pushed c t, disconnects := o.relinked c t T.disconnects }

end Op

/-- A write to the record of a transport, seen at `t`. -/
theorem Core.transports_at {c' : Core} {t' : TId} (f : ATransport → ATransport)
    (hT : c.transports t' = some T)
    (h : c'.transports = Function.update c.transports t' (some (f T))) :
    c'.transports t = (c.transports t).map fun T => if t' = t then f T else T := by
  rw [h]
  by_cases ht : t' = t
  · subst ht
    simp [hT]
  · simp [ht, Ne.symm ht]

/-- **What an operation does to the record of a transport.** -/
theorem Op.effect_transports (hg : o.Guard w) (hreg : ∀ type, o ≠ .register t type)
    (hun : ∀ T, o ≠ .unregister t T) :
    (o.effect w.core).transports t = (w.core.transports t).map fun T => o.turn w.core t T := by
  cases o with
  | send t' T p | sendList _ t' T p | readWrte _ _ t' T p =>
      refine (Core.transports_at (fun T => { T with mainToIo := T.mainToIo ++ [p] })
        (by first | exact hg.1 | exact hg.2.2.1) rfl).trans ?_
      congr 1
      funext T
      by_cases ht : t' = t <;> simp [turn, pushed, relinked, ht]
  | rig _ _ _ _ t' T p =>
      refine (Core.transports_at
        (fun T => { T with mainToIo := T.mainToIo ++ [p w.core.nextPkt] })
        hg.2.2.2.2.2.1 rfl).trans ?_
      congr 1
      funext T
      by_cases ht : t' = t <;> simp [turn, pushed, relinked, ht]
  | openStream d =>
      refine (Core.transports_at (fun T => { T with
          disconnects := T.disconnects ++ [w.core.nextSock + 1]
          mainToIo := T.mainToIo ++
            [ctlPacket w.core.nextPkt A_OKAY w.core.localSocketNextId d.remote] })
        hg.2.2 rfl).trans ?_
      congr 1
      funext T
      by_cases ht : d.t = t <;> simp [turn, pushed, relinked, ht]
  | attach _ _ _ t' T _ =>
      refine (Core.transports_at (fun T => { T with
        disconnects := T.disconnects ++ [w.core.nextSock] }) hg.2.2.2.2 rfl).trans ?_
      congr 1
      funext T
      by_cases ht : t' = t <;> simp [turn, pushed, relinked, ht]
  | wrteDone t' _ a T m _ =>
      refine (Core.transports_at (fun T => { T with
          mainToIo := T.mainToIo ++ [ctlPacket w.core.nextPkt A_OKAY a.id m.arg0] })
        hg.2.2.2.2.2 wrteDone_transports).trans ?_
      congr 1
      funext T
      by_cases ht : t' = t <;> simp [turn, pushed, relinked, ht]
  | drainReady _ a d far =>
      obtain ⟨-, -, -, -, -, -, q, b, -, -, hfar⟩ := hg
      obtain ⟨-, rfl⟩ | ⟨-, t', T, -, hT, rfl⟩ := hfar
      · simp [effect, turn, pushed, relinked, Option.map_id']
      · refine (Core.transports_at (fun T => { T with
            mainToIo := T.mainToIo ++ [ctlPacket w.core.nextPkt A_OKAY a.id b.id] }) hT
              rfl).trans ?_
        congr 1
        funext T
        by_cases ht : t' = t <;> simp [turn, pushed, relinked, ht]
  | close d =>
      change (w.core.transports t).map (d.onTransport w.core.nextPkt t) = _
      congr 1
      funext T
      simp only [Close.onTransport, turn, pushed, relinked]
      cases d.remote with
      | none => simp
      | some r =>
          obtain ⟨r, t'⟩ := r
          by_cases ht : t' = t <;> simp [ht]
  | drainDestroy x a d notes =>
      rw [effect, Core.close_transports_none rfl]
      simp [turn, pushed, relinked, Option.map_id']
  | drain x a d =>
      have h : (effect w.core (.drain x a d)).transports = w.core.transports := by
        simp only [effect]
        split <;> rfl
      simp [h, turn, pushed, relinked, Option.map_id']
  | conn t' T online state quals =>
      exact Core.transports_at (fun T => { T with
        online := online, connectionState := state, quals := quals }) hg rfl
  | popMain t' T p rest =>
      exact Core.transports_at (fun T => { T with ioToMain := rest }) hg.1 rfl
  | popIo t' T p rest =>
      exact Core.transports_at (fun T => { T with mainToIo := rest }) hg.1 rfl
  | post t' T p =>
      exact Core.transports_at (fun T => { T with ioToMain := T.ioToMain ++ [p] }) hg.1 rfl
  | closePipes t' T => exact Core.transports_at (fun T => { T with pipesOpen := false }) hg rfl
  | register t' type =>
      have ht : t ≠ t' := fun h => hreg type (by rw [h])
      simp [effect, Core.onLoop, Core.putTransport, ht, turn, pushed, relinked, Option.map_id']
  | unregister t' T =>
      have ht : t ≠ t' := fun h => hun T (by rw [h])
      simp [effect, Core.putTransport, ht, turn, pushed, relinked, Option.map_id']
  | _ =>
      change w.core.transports t = _
      simp [turn, pushed, relinked, Option.map_id']

/-- A transport after an operation is new, or was there before. -/
theorem Op.effect_transport (hg : o.Guard w) (hT' : (o.effect w.core).transports t = some T') :
    (∃ type, o = .register t type ∧ T' = { type := type }) ∨
      ∃ T, w.core.transports t = some T ∧ T' = o.turn w.core t T := by
  by_cases hreg : ∃ type, o = .register t type
  · obtain ⟨type, rfl⟩ := hreg
    refine .inl ⟨type, rfl, ?_⟩
    simpa [effect, Core.onLoop, Core.putTransport] using hT'.symm
  · by_cases hun : ∃ T, o = .unregister t T
    · obtain ⟨T, rfl⟩ := hun
      simp [effect, Core.putTransport] at hT'
    · rw [Op.effect_transports hg (fun type h => hreg ⟨type, h⟩) fun T h => hun ⟨T, h⟩] at hT'
      obtain ⟨T, hT, rfl⟩ := Option.map_eq_some_iff.mp hT'
      exact .inr ⟨T, hT, rfl⟩

/-! ### The pipe to the main loop -/

/-- What an operation may put into the pipe to the main loop is what its task posts. -/
theorem Op.mem_ioToMain {k : Task} {c₀ : Core} {p : APacket} (hm : k.May c₀ w o)
    (hp : p ∈ (o.turn w.core t T).ioToMain) (hg : o.Guard w)
    (hT : w.core.transports t = some T) :
    p ∈ T.ioToMain ∨ k = .post t p.msg p.data := by
  cases o with
  | popMain t' T₀ p' rest =>
      simp only [turn] at hp
      split at hp
      · next ht =>
        subst ht
        obtain rfl : T = T₀ := Option.some.inj (hT.symm.trans hg.1)
        exact .inl (by rw [hg.2]; exact List.mem_cons_of_mem _ hp)
      · exact .inl hp
  | post t' T₀ p' =>
      simp only [turn] at hp
      split at hp
      · next ht =>
        subst ht
        obtain hp | hp := List.mem_append.mp hp
        · exact .inl hp
        · obtain rfl := List.mem_singleton.mp hp
          exact .inr hm
      · exact .inl hp
  | conn | popIo | closePipes =>
      simp only [turn] at hp
      split at hp <;> exact .inl hp
  | _ => exact .inl hp

/-- The handlers that the main loop runs, which are not sections of an I/O thread. -/
def Task.OfMain : Task → Prop
  | .closeAll _ | .unref _ | .post .. | .pop _ => False
  | _ => True

theorem Core.taskOf_ofMain (c : Core) (k : FdeId) (ev : Events) : (c.taskOf k ev).OfMain := by
  unfold Core.taskOf
  split
  · split
    · trivial
    · split <;> trivial
  · split
    · cases c.received _ <;> trivial
    · trivial
  · trivial

/-- The callbacks of the main loop are no sections of a thread. -/
theorem System.callbackTask_ofMain (s : System) (io : Io) (k : FdeId) (ev : Events) :
    (s.callbackTask io k ev).OfMain := by
  unfold System.callbackTask
  split
  · split
    · split
      · trivial
      · split <;> trivial
    · trivial
  · split
    · unfold Core.forcedTask
      split
      · split
        · exact Core.taskOf_ofMain _ _ _
        · trivial
      · trivial
    · trivial
  · trivial
  · trivial
  · exact Core.taskOf_ofMain _ _ _
  · exact Core.taskOf_ofMain _ _ _

/-- What the output thread posts was accepted. -/
theorem System.accepted_of_task {a : Action} {m : AMessage} {data : List UInt8}
    (h : s.task a = .post t m data) : Accepted m data := by
  have hsync (x y : UInt32) : Accepted (syncMsg x y) [] := by
    simp [Accepted, syncMsg, dataSum]
  cases a with
  | output t' r fails =>
      simp only [System.task] at h
      cases hl : s.life t' with
      | none => simp [hl] at h
      | some l =>
          simp only [hl, Option.elim] at h
          unfold Life.outTask at h
          split at h
          · obtain ⟨-, rfl, rfl⟩ := Task.post.inj h
            exact hsync _ _
          · split at h
            · split at h
              · next hacc =>
                obtain ⟨-, rfl, rfl⟩ := Task.post.inj h
                exact hacc
              · cases h
            · cases h
          · obtain ⟨-, rfl, rfl⟩ := Task.post.inj h
            exact hsync _ _
          all_goals cases h
  | dispatch io =>
      simp only [System.task] at h
      split at h
      · cases h
      · next k rest hp =>
        have hmain := s.callbackTask_ofMain io k (s.core.loop.fdes k).events
        rw [h] at hmain
        exact hmain.elim
  | input t' fails =>
      simp only [System.task] at h
      cases hl : s.life t' with
      | none => simp [hl] at h
      | some l =>
          simp only [hl, Option.elim] at h
          unfold InPc.task at h
          split at h <;> cases h
  | register | select => cases h

/-- **The packets in the pipe to the main loop passed `check_header` and `check_data`.** -/
theorem Reachable.accepted (h : Reachable s) {p : APacket} (hT : s.core.transports t = some T)
    (hp : p ∈ T.ioToMain) : Accepted p.msg p.data := by
  induction h generalizing T p with
  | refl => simp [System.init, Core.init] at hT
  | @tail s s' a hrun _ hs ih =>
      have hr : Reachable s := hrun
      have hops := step_ops hr.wf hr.lives.unregistered hs
      let I : Work → Prop := fun v => ∀ T, v.core.transports t = some T →
        ∀ p ∈ T.ioToMain, Accepted p.msg p.data
      refine hops.invariant (I := I) (fun T hT p hp => ih hT hp) ?_ T hT p hp
      intro v o hv hg hmay T' hT' p hp
      obtain ⟨type, -, rfl⟩ | ⟨T, hT, rfl⟩ := Op.effect_transport hg hT'
      · cases hp
      · obtain hp | hk := Op.mem_ioToMain hmay hp hg hT
        · exact hv T hT p hp
        · exact s.accepted_of_task hk

end Adbd
