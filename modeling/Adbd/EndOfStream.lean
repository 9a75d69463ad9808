import Adbd.Outbound

/-!
# The End of a Stream

A stream ends for its remote when the daemon sends a `CLSE` with the id of the remote end.
Except where the transport itself goes away, every local socket that loses its remote end has
sent one, behind all the data that was read from it; afterwards nothing more is sent for it.

## Main definitions

* `Task.TakesOffline`: the handlers that may call `run_transport_disconnects`.
* `Core.Parted`: a socket that is closing or gone, and does not come back.

## Main results

* `Op.route_kept`: only closing a stream takes the remote end from a socket.
* `step_clse`: a step that does so sends a `CLSE`.
* `stream_ends`: the `CLSE` is behind all data, and the last of the stream.
-/

namespace Adbd

variable {c : Core} {w w' : Work} {o : Op} {x q : SockId} {a b : ASocket} {s s' : System}
  {t : TId} {T T' : ATransport} {p : APacket} {k : Task} {id rid : UInt32}

/-! ### Operations -/

@[simp] theorem Op.turn_disconnects (c : Core) (t : TId) (T : ATransport) (o : Op) :
    (o.turn c t T).disconnects = o.relinked c t T.disconnects := by
  cases o with
  | conn | popMain | popIo | post | closePipes =>
      simp only [turn, relinked]
      split <;> rfl
  | _ => rfl

/-- A remote socket that an operation takes off its transport is closed with its stream. -/
theorem Op.relinked_mem (hm : q ∈ T.disconnects)
    (hm' : q ∉ o.relinked w.core t T.disconnects) :
    ∃ d b, o = .close d ∧ d.far = some (q, b) := by
  cases o with
  | openStream d | attach s a id t' T' m =>
      simp only [relinked] at hm'
      split at hm'
      · exact absurd (List.mem_append_left _ hm) hm'
      · exact absurd hm hm'
  | close d =>
      simp only [relinked, Close.remote] at hm'
      cases hf : d.far with
      | none => simp [hf, hm] at hm'
      | some f =>
          obtain ⟨r, b⟩ := f
          refine ⟨d, b, rfl, ?_⟩
          obtain rfl : r = q := by
            by_contra hne
            refine hm' ?_
            simp only [hf]
            split
            · next r' t' hr =>
              split at hr
              · obtain ⟨t₁, -, heq⟩ := Option.map_eq_some_iff.mp hr
                obtain ⟨rfl, rfl⟩ := Prod.mk.inj heq
                split
                · exact (List.mem_erase_of_ne (Ne.symm hne)).mpr hm
                · exact hm
              · cases hr
            · exact hm
          exact hf
  | _ => exact absurd hm hm'

/-- **Only closing a stream takes the remote end from a socket.** -/
theorem Op.route_kept (hgr : Graph w.core) (hg : o.Guard w)
    (h : w.core.route x = some (id, t, rid)) :
    (o.effect w.core).route x = some (id, t, rid) ∨
      ∃ d q b, o = .close d ∧ d.sock = x ∧ d.far = some (q, b) ∧ b.kind = .remoteSocket ∧
        b.transport = some t ∧ b.id = rid := by
  obtain ⟨a, q, b, hx, hp, hq, hkb, hbt, rfl, rfl⟩ := Core.route_eq_some.mp h
  obtain ⟨t', T, ht', hT, hm⟩ := hgr.remote hq hkb
  obtain rfl : t = t' := Option.some.inj (hbt.symm.trans ht')
  obtain ⟨b', hb', hback, -⟩ := hgr.peer hx hp
  obtain rfl : b = b' := Option.some.inj (hq.symm.trans hb')
  have hreg : ∀ type, o ≠ .register t type := by
    rintro type rfl
    exact absurd (hT.symm.trans hg) (by simp)
  have hun : ∀ T₀, o ≠ .unregister t T₀ := by
    rintro T₀ rfl
    obtain rfl : T = T₀ := Option.some.inj (hT.symm.trans hg.1)
    rw [hg.2.1] at hm
    cases hm
  have hT' : (o.effect w.core).transports t = some (o.turn w.core t T) := by
    rw [Op.effect_transports hg hreg hun, hT]
    rfl
  have hgr' : Graph (o.effect w.core) := hgr.op hg
  by_cases hm' : q ∈ o.relinked w.core t T.disconnects
  · left
    -- the remote end is still there, and only it can be the peer of `x`
    rw [← Op.turn_disconnects] at hm'
    obtain ⟨b', hq', hkb', hbt'⟩ := (hgr'.disconnects hT').2 q hm'
    have hb' : b'.peer = some x ∧ b'.id = b.id := by
      cases o.evolves hgr hg hq hq' with
      | queue | flags => exact ⟨hback, rfl⟩
      | choose => exact ⟨hback, rfl⟩
      | rig => cases hkb'
      | attach => cases hkb'
      | close d a' ho hd hs hf =>
          subst ho
          have hend := hg.2.1
          rw [hs, hkb] at hend
          cases hend
    obtain ⟨a', hx', hp', -⟩ := hgr'.peer hq' hb'.1
    have hid : a'.id = a.id := by
      cases o.evolves hgr hg hx hx' with
      | queue | flags | choose | rig | attach => rfl
      | close d a' ho hd hs hf =>
          rw [Close.fate] at hf
          split at hf
          · cases hf
          · obtain rfl := Option.some.inj hf
            cases hp'
    exact Core.route_eq_some.mpr ⟨a', q, b', hx', hp', hq', hkb', hbt', hid, hb'.2⟩
  · right
    obtain ⟨d, b', rfl, hf⟩ := Op.relinked_mem hm hm'
    obtain ⟨hd, -, hdp, -, hfar⟩ := hg
    obtain rfl : b = b' := Option.some.inj (hq.symm.trans (hfar q b' hf))
    rw [hf] at hdp
    obtain ⟨b', hb', hback', -⟩ := hgr.peer hd hdp
    obtain rfl : b = b' := Option.some.inj (hq.symm.trans hb')
    exact ⟨d, q, b, rfl, Option.some.inj (hback'.symm.trans hback), hf, hkb, hbt, rfl⟩

/-- The handlers that may call `run_transport_disconnects` for `t`. -/
def Task.TakesOffline (k : Task) (t : TId) : Prop :=
  k = .remove t ∨ ∃ p, k = .packet t p ∧
    (p.msg.command = A_CNXN ∨ p.msg.command = A_SYNC ∧ p.msg.arg0 = 0)

/-- Closing a stream sends a `CLSE` to its remote end, if that is not done for a transport that
goes offline. -/
theorem Task.May.pushed_clse {e : Core} {d : Close} (hm : k.May e w (.close d))
    (hon : ¬k.TakesOffline t) (hf : d.far = some (q, b)) (hk : b.kind = .remoteSocket)
    (ht : b.transport = some t) :
    ∃ p ∈ (Op.close d).pushed w.core t, p.msg.command = A_CLSE ∧ p.msg.arg1 = b.id := by
  have hhow : d.how ≠ .disconnect := by
    intro hhow
    simp only [May, Closes, hhow] at hm
    obtain ⟨t', o, b', hf', ht', hk'⟩ := hm
    obtain ⟨rfl, rfl⟩ := Prod.mk.inj (Option.some.inj (hf.symm.trans hf'))
    obtain rfl := Option.some.inj (ht.symm.trans ht')
    exact hon hk'
  refine ⟨ctlPacket w.core.nextPkt A_CLSE (if d.how = .fromPeer then d.self.id else 0) b.id,
    ?_, rfl, rfl⟩
  simp [Op.pushed, Close.remote, Close.clse, hf, hk, ht, hhow]

/-- The input thread closes no stream when it takes a packet. -/
theorem Task.pop_close {e : Core} {d : Close} (h : (Task.pop t).May e w (.close d)) :
    False := by
  simp only [May, Closes] at h
  cases hd : d.how with
  | call =>
      rw [hd] at h
      obtain ⟨t', m, ⟨p, hk, -⟩, -⟩ | ⟨-, hk | ⟨t', m, ⟨p, hk, -⟩, -⟩⟩ := h <;> cases hk
  | eof =>
      rw [hd] at h
      cases h.1
  | locked =>
      rw [hd] at h
      obtain ⟨-, t', hk | hk, -⟩ := h <;> cases hk
  | fromPeer =>
      rw [hd] at h
      obtain ⟨-, ⟨hk, -⟩ | ⟨-, t', p, hk, -⟩⟩ := h <;> cases hk
  | disconnect =>
      rw [hd] at h
      obtain ⟨t', q, b, -, -, hk | ⟨p, hk, -⟩⟩ := h <;> cases hk

/-! ### Steps -/

/-- A step that does not take `t` offline leaves the remote end of a socket, or sends a
`CLSE`. -/
theorem step_clse {b : Action} (hr : Reachable s) (hs : step s b = .ok s')
    (hroute : s.core.route x = some (id, t, rid)) (hgone : s'.core.route x ≠ some (id, t, rid))
    (hon : ¬(s.task b).TakesOffline t) :
    ∃ p ∈ s.puts t b s', p.msg.command = A_CLSE ∧ p.msg.arg1 = rid := by
  have hops := step_ops hr.wf hr.lives.unregistered hs
  obtain ⟨a, q, b₀, -, -, hq, hkb, hbt, -, -⟩ := Core.route_eq_some.mp hroute
  obtain ⟨t', T, ht', hT, -⟩ := hr.wf.graph.remote hq hkb
  obtain rfl : t = t' := Option.some.inj (hbt.symm.trans ht')
  have hpop : s.task b ≠ .pop t := by
    intro hk
    refine hgone (hops.invariant (I := fun v => WF v ∧ v.core.route x = some (id, t, rid))
      ⟨hr.wf, hroute⟩ fun v o ⟨hv, hvr⟩ hg hm => ⟨hv.op hg, ?_⟩).2
    rcases Op.route_kept hv.graph hg hvr with h | ⟨d, q, b', rfl, -⟩
    · exact h
    · rw [hk] at hm
      exact (Task.pop_close hm).elim
  obtain ⟨-, T', new, hT', hnew, hor⟩ := hops.invariant (I := fun v => WF v ∧
    ∃ T₁ new, v.core.transports t = some T₁ ∧ T₁.mainToIo = T.mainToIo ++ new ∧
      (v.core.route x = some (id, t, rid) ∨ ∃ p ∈ new, p.msg.command = A_CLSE ∧
        p.msg.arg1 = rid))
    ⟨hr.wf, T, [], hT, (List.append_nil _).symm, .inl hroute⟩ fun v o hv hg hm => by
      obtain ⟨hv, T₁, new, hT₁, hnew, hor⟩ := hv
      have hreg : ∀ type, o ≠ .register t type := by
        rintro type rfl
        exact step_registered hr hs hT hm
      have hun : ∀ T₀, o ≠ .unregister t T₀ := by
        rintro T₀ rfl
        exact hon (.inl hm)
      have hpo : ∀ T₀ p rest, o ≠ .popIo t T₀ p rest := by
        rintro T₀ p rest rfl
        exact hpop hm
      have hT₂ : (o.effect v.core).transports t = some (o.turn v.core t T₁) := by
        rw [Op.effect_transports hg hreg hun, hT₁]
        rfl
      refine ⟨hv.op hg, _, new ++ o.pushed v.core t, hT₂, ?_, ?_⟩
      · rw [Op.mainToIo_eq hg hreg hpo hT₁ hT₂, hnew, List.append_assoc]
      rcases hor with hvr | ⟨p, hp, hcl⟩
      · refine (Op.route_kept hv.graph hg hvr).imp_right ?_
        rintro ⟨d, q, b', rfl, -, hf, hkb, hbt, hid⟩
        obtain ⟨p, hp, hcl⟩ := hm.pushed_clse hon hf hkb hbt
        exact ⟨p, List.mem_append_right _ hp, hid ▸ hcl⟩
      · exact .inr ⟨p, List.mem_append_left _ hp, hcl⟩
  have htakes : s.takes t b = false := Bool.eq_false_iff.mpr fun h =>
    hpop (System.takes_task h)
  have hout := step_outbox hr hs hT hT'
  rw [System.pops, htakes, if_neg (by decide), List.nil_append, hnew] at hout
  rw [List.append_cancel_left hout]
  exact hor.resolve_left hgone

/-! ### After the end -/

/-- A socket that is closing or gone, and does not come back. -/
def Core.Parted (c : Core) (x : SockId) : Prop :=
  x < c.nextSock ∧ ∀ a, c.sockets x = some a → a.closing = true

theorem Core.Parted.op (h : w.core.Parted x) (hgr : Graph w.core) (hg : o.Guard w) :
    (o.effect w.core).Parted x := by
  refine ⟨Nat.lt_of_lt_of_le h.1 (o.nextSock_le w.core), fun a' hx' => ?_⟩
  cases hx : w.core.sockets x with
  | none =>
      rw [(o.untouched_dead hgr hg hx fun _ => h.1).sock, hx] at hx'
      cases hx'
  | some a => exact o.closing_stays hgr hg hx hx' (h.2 a hx)

theorem Core.Parted.stays {b : Action} (h : s.core.Parted x) (hr : Reachable s)
    (hs : step s b = .ok s') : s'.core.Parted x :=
  ((step_ops hr.wf hr.lives.unregistered hs).invariant (I := fun v => WF v ∧ v.core.Parted x)
    ⟨hr.wf, h⟩ fun _ _ hv hg _ => ⟨hv.1.op hg, hv.2.op hv.1.graph hg⟩).2

/-- Such a socket has no remote end. -/
theorem Core.Parted.route (h : c.Parted x) (hgr : Graph c) : c.route x = none := by
  cases hx : c.sockets x with
  | none => simp [Core.route, hx]
  | some a =>
      have hp : a.peer = none := (hgr.shape hx).peer.mpr (.inr (h.2 a hx))
      simp [Core.route, hx, hp]

/-- Nothing is read for its remote end, and nothing is sent. -/
theorem Core.Parted.silent {b : Action} (h : s.core.Parted x) (hr : Reachable s)
    (hs : step s b = .ok s') : s.readFor t x b = [] ∧ s.uploads t x b s' = [] := by
  have hread : s.readFor t x b = [] := by
    rw [System.readFor, h.route hr.wf.graph]
    exact if_neg fun hc => Bool.false_ne_true hc.2
  exact ⟨hread, step_silent hr hs hread⟩

/-- A socket whose stream is closed is closing or gone. -/
theorem Op.close_parted {d : Close} (hgr : Graph w.core) (hg : (Op.close d).Guard w) :
    ((Op.close d).effect w.core).Parted d.sock := by
  refine ⟨hgr.fresh hg.1, fun a ha => ?_⟩
  simp only [effect, Core.close, if_true, Close.fate] at ha
  split at ha
  · cases ha
  · rw [← Option.some.inj ha]

/-- A socket that loses its remote end is closing or gone. -/
theorem step_parted {b : Action} (hr : Reachable s) (hs : step s b = .ok s')
    (hroute : s.core.route x = some (id, t, rid))
    (hgone : s'.core.route x ≠ some (id, t, rid)) :
    s'.core.Parted x := by
  have hor := ((step_ops hr.wf hr.lives.unregistered hs).invariant (I := fun v => WF v ∧
    (v.core.route x = some (id, t, rid) ∨ v.core.Parted x)) ⟨hr.wf, .inl hroute⟩
    fun v o ⟨hv, hvr⟩ hg _ => ⟨hv.op hg, ?_⟩).2
  · exact hor.resolve_left hgone
  rcases hvr with hvr | hvr
  · rcases Op.route_kept hv.graph hg hvr with h | ⟨d, q, b', rfl, rfl, -⟩
    · exact .inl h
    · exact .inr (Op.close_parted hv.graph hg)
  · exact .inr (hvr.op hv.graph hg)

/-! ### Recorded runs -/

namespace Outbound

variable {y y' y'' : Outbound}

/-- A later part of a run. -/
abbrev Later (t : TId) (x : SockId) (y y' : Outbound) : Prop :=
  Trans.Runs (step t x) (fun _ _ => True) y y'

/-- Nothing more is recorded for a socket that is closing or gone. -/
theorem Later.silent (h : y.Later t x y') (hr : Reachable y.system)
    (hpart : y.system.core.Parted x) :
    y'.read = y.read ∧ y'.uploads = y.uploads ∧ y.put <+: y'.put := by
  suffices hI : Reachable y'.system ∧ y'.system.core.Parted x ∧ y'.read = y.read ∧
      y'.uploads = y.uploads ∧ y.put <+: y'.put from hI.2.2
  induction h with
  | refl => exact ⟨hr, hpart, rfl, rfl, List.prefix_rfl⟩
  | tail _ _ hs ih =>
      obtain ⟨hr, hpart, hread, huploads, hput⟩ := ih
      obtain ⟨hs, hread', huploads', hput', -⟩ := step_ok hs
      obtain ⟨hnone, hsilent⟩ := hpart.silent (t := t) hr hs
      refine ⟨.tail hr trivial hs, hpart.stays hr hs, ?_, ?_, ?_⟩
      · rw [hread', hread, hnone, List.append_nil]
      · rw [huploads', huploads, hsilent, List.append_nil]
      · exact hput.trans (hput' ▸ List.prefix_append _ _)

end Outbound

/-- **A stream ends with a `CLSE`.** When a local socket loses its remote end, and not because
the transport goes offline or away, a `CLSE` for the remote end is in the pipe of the
transport, behind the `WRTE`s with all that was read from the socket; and in any continuation
of the run nothing more is read from it for a remote end on the transport, and no more `WRTE`s
for it are put into that pipe. -/
theorem stream_ends {y y' y'' : Outbound} {b : Action} (h : y.Run t x)
    (hs : Outbound.step t x y b = .ok y') (hroute : y.system.core.route x = some (id, t, rid))
    (hgone : y'.system.core.route x ≠ some (id, t, rid))
    (hon : ¬(y.system.task b).TakesOffline t) (hlater : y'.Later t x y'') :
    y''.read = y'.read ∧ y''.uploads = y'.uploads ∧ ∃ l₁ p l₂, y''.put = l₁ ++ p :: l₂ ∧
      p.msg.command = A_CLSE ∧ p.msg.arg1 = rid ∧ (y''.uploads.map (·.packet)).Sublist l₁ := by
  have hr := h.reachable
  obtain ⟨hss, -, huploads, hput, -⟩ := Outbound.step_ok hs
  obtain ⟨hread', huploads', hput'⟩ :=
    hlater.silent (.tail hr trivial hss) (step_parted hr hss hroute hgone)
  refine ⟨hread', huploads', ?_⟩
  obtain ⟨p, hp, hclse, hrid⟩ := step_clse hr hss hroute hgone hon
  obtain ⟨m, hm⟩ := hput'
  have hold := (stream_upload h).2.2.1
  rw [huploads', huploads, List.map_append, ← hm, hput]
  by_cases hread : y.system.readFor t x b = []
  · obtain ⟨l, l', hl⟩ := List.append_of_mem hp
    rw [step_silent hr hss hread, hl]
    refine ⟨y.put ++ l, p, l' ++ m, by simp, hclse, hrid, ?_⟩
    simpa using hold.trans (List.sublist_append_left _ _)
  · -- what was read is sent first, so the `CLSE` is behind it
    obtain ⟨addr, id', rid', rest, hputs, hup⟩ := step_sends hr hss hread
    rw [hputs] at hp ⊢
    have hne : p ≠ uploadPacket addr (y.system.readFor t x b) id' rid' := by
      rintro rfl
      cases hclse
    obtain ⟨l, l', hl⟩ := List.append_of_mem ((List.mem_cons.mp hp).resolve_left hne)
    rw [hl, hup]
    refine ⟨y.put ++ uploadPacket addr (y.system.readFor t x b) id' rid' :: l, p,
      l' ++ m, by simp, hclse, hrid, hold.append ?_⟩
    exact List.singleton_sublist.mpr List.mem_cons_self

/-- A shell prints two bytes and exits: they are sent, and then its end. -/
theorem stream_ends_shell :
    ∃ y : Outbound, y.read = [72, 105] ∧ ∃ l₁ p l₂, y.put = l₁ ++ p :: l₂ ∧
    p.msg.command = A_CLSE ∧ p.msg.arg1 = 5 ∧ (y.uploads.map (·.packet)).Sublist l₁ := by
  let b : Action := .dispatch { reads := [.data [72, 105], .eof] }
  obtain ⟨y, hy, hP⟩ := Outbound.exists_of 0 0
    (connect 0 .usb ++ openShell 0 5 7 ++ [.select [(.sock 0, Events.onlyRead)]])
    (P := fun y => y.system.core.route 0 == some (1, 0, 5) && (y.system.task b == .read 0 &&
      (Outbound.step 0 0 y b).toOption.any fun y' =>
        y'.system.core.route 0 == none && y'.read == [72, 105]))
    (by decide +kernel)
  simp only [Bool.and_eq_true, beq_iff_eq] at hP
  obtain ⟨hroute, htask, hP⟩ := hP
  obtain ⟨y', hs, hP'⟩ := (Option.any_eq_true _ _).mp hP
  simp only [Bool.and_eq_true, beq_iff_eq] at hP'
  obtain ⟨hgone, hread⟩ := hP'
  have hs' : Outbound.step 0 0 y b = .ok y' := by
    cases h : Outbound.step 0 0 y b with
    | ok y₁ => rw [h] at hs; exact congrArg Except.ok (Option.some.inj hs)
    | error e => rw [h] at hs; cases hs
  have hon : ¬(y.system.task b).TakesOffline 0 := by
    rw [htask]
    rintro (h | ⟨p, h, -⟩) <;> cases h
  exact ⟨y', hread,
    (stream_ends hy hs' hroute (by rw [hgone]; decide) hon Trans.Runs.refl).2.2⟩

end Adbd
