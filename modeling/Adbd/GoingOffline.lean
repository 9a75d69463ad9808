import Adbd.Lifecycle

/-!
# Going Offline

`handle_offline` is called for a `SYNC(0)`, and for a `CNXN` on a connected transport. It
walks the disconnect list of the transport with a saved `next` pointer, while every
callback closes a local socket, unlinks its own node and frees it. The walk is safe: it
calls each callback of the list it started with once, in order, and leaves an empty list.

The callbacks belong to the remote sockets, so they only find the local sockets whose peer
is on the transport. A client of the smart socket that waits for its `OKAY` is bound to
the transport by `s->transport` alone, which `smart_socket_enqueue` set, and has no peer.
`close_all_sockets` tests `s->transport` as well as the peer; `handle_offline` does not
find such a socket, and an `OKAY` of the next session can complete its request.

## Main definitions

* `Core.Bound`: the test of `close_all_sockets`.
* `System.GoesOffline`: the memory with which `handle_offline` is called.
* `Unbinds`: what `handle_offline` should have done when it returns.

## Main results

* `runTransportDisconnects_eq`: the walk calls every callback once.
* `offline_unbinds_iff`: nothing stays bound to the transport exactly if every socket bound
  to it has a remote socket of it as its peer.
-/

namespace Adbd

open Program Custody

variable {c c' : Core} {s : System} {io : Io} {t : TId} {T : ATransport} {w v : Work}
  {x q : SockId} {a b : ASocket} {p : APacket}

/-! ### The walk -/

/-- Every callback of a disconnect list, once and in order. -/
def callbacks (l : List SockId) : M Unit := forM l (remoteSocketDisconnect callClose)

/-- The loop of `run_transport_disconnects` calls the callbacks of the list it starts with,
although each of them frees the node the loop stands on. -/
theorem runDisconnectsFrom_eq {l : List SockId} (n : Nat) (hn : l.length ≤ n) (hw : WF w)
    (hT : w.core.transports t = some { T with disconnects := l }) :
    runDisconnectsFrom t n l.head? w.core = callbacks l w.core := by
  induction n generalizing l w with
  | zero =>
      obtain rfl : l = [] := List.eq_nil_of_length_eq_zero (Nat.le_zero.mp hn)
      rfl
  | succ n ih =>
      cases l with
      | nil => rfl
      | cons x l =>
          obtain ⟨b, hb, -⟩ := (hw.graph.disconnects hT).2 x (by simp)
          have hnext : nextIn x (x :: l) = l.head? := by simp [nextIn]
          rw [List.head?_cons, runDisconnectsFrom, bind_ok (getSock_eq hb),
            bind_ok (getTransport_eq hT), hnext, callbacks, List.forM_cons]
          refine bind_congr_of fun _ c₁ hcall => ?_
          have hdoes := Does.disconnectFirst (P := fun _ _ => True) hT rfl
            (fun _ _ _ => trivial) hw
          obtain ⟨H, hops, -, hT', -⟩ := wp_ok hdoes hcall
          exact ih (by simpa using hn) (hw.ops hops) hT'

/-- **`run_transport_disconnects` calls every registered callback once**, in order. -/
theorem runTransportDisconnects_eq (hw : WF w) (hT : w.core.transports t = some T) :
    runTransportDisconnects t w.core = callbacks T.disconnects w.core := by
  rw [runTransportDisconnects, bind_ok (getTransport_eq hT)]
  exact runDisconnectsFrom_eq _ (Nat.le_refl _) hw hT

/-- `handle_offline` calls every registered callback once. -/
theorem handleOffline_eq (hw : WF w) (hT : w.core.transports t = some T) :
    handleOffline t w.core = (do
      modTransport t fun T => { T with online := false }
      callbacks T.disconnects) w.core := by
  rw [handleOffline, bind_ok (modTransport_eq hT), bind_ok (modTransport_eq hT)]
  exact runTransportDisconnects_eq (T := { T with online := false })
    (hw.op (o := .conn t T false T.connectionState T.quals) hT)
      (by simp [Op.effect, Core.putTransport])

/-! ### Bound sockets -/

/-- A local socket with the record `a` is bound to `t`:
`s->transport == t || (s->peer && s->peer->transport == t)`. -/
def Core.Bound (c : Core) (t : TId) (a : ASocket) : Prop :=
  a.transport = some t ∨
    ∃ q b, a.peer = some q ∧ c.sockets q = some b ∧ b.transport = some t

/-- Its peer is a remote socket of `t`, which has a callback. -/
def Core.PeerOn (c : Core) (t : TId) (a : ASocket) : Prop :=
  ∃ q b, a.peer = some q ∧ c.sockets q = some b ∧ b.kind = .remoteSocket ∧ b.transport = some t

/-- What happens to the sockets while `handle_offline(t)` runs: the ones that are left and
not closing are as they were in the memory `c`, and the ones without a peer on `t` are all
left. -/
structure Offlining (c : Core) (t : TId) (v : Work) : Prop where
  wf : WF v
  same : ∀ x a, v.core.sockets x = some a → a.closing = false → c.sockets x = some a
  left : ∀ x a, c.sockets x = some a → a.kind.isEnd = true → a.closing = false →
    ¬c.PeerOn t a →
    v.core.sockets x = some a

/-- A socket that faces a local one is not closing. -/
theorem WF.closing_false (hw : WF w) (hx : w.core.sockets x = some a)
    (hk : a.kind.isLocal = false) : a.closing = false := by
  cases hc : a.closing with
  | false => rfl
  | true => rw [((hw.graph.shape hx).closing hc).1] at hk; cases hk

/-- The kinds that a local end faces have no queue of their own. -/
theorem SockKind.Faces.not_local {k k' : SockKind} (h : k.Faces k') (hk : k.isEnd = true) :
    k'.isLocal = false := by
  cases k <;> cases k' <;> simp_all [Faces, isEnd, isLocal]

/-- Closing a stream whose remote end is on `t`. -/
theorem Offlining.close {d : Close} (h : Offlining c t v) (hg : (Op.close d).Guard v)
    (hd : d.Disconnects t) : Offlining c t ((Op.close d).apply v) := by
  obtain ⟨-, o, b, hfar, hkb, hbt⟩ := hd
  obtain ⟨hs, -, hpeer, -, hlive⟩ := id hg
  have hb := hlive o b hfar
  have hbc : b.closing = false := h.wf.closing_false hb (by simp [hkb, SockKind.isLocal])
  refine ⟨h.wf.op hg, fun x a hx hc => ?_, fun x a hx hk hc hno => ?_⟩
  · simp only [Op.apply_core, Op.effect, Core.close] at hx
    split at hx
    · rw [Close.fate] at hx
      split at hx
      · cases hx
      · obtain rfl := Option.some.inj hx
        cases hc
    · split at hx
      · cases hx
      · exact h.same x a hx hc
  · have hx' := h.left x a hx hk hc hno
    have hxs : x ≠ d.sock := by
      rintro rfl
      obtain rfl : a = d.self := Option.some.inj (hx'.symm.trans hs)
      refine hno ⟨o, b, ?_, h.same o b hb hbc, hkb, hbt⟩
      simp [hpeer, hfar]
    have hxo : x ≠ o := by
      rintro rfl
      obtain rfl : a = b := Option.some.inj (hx'.symm.trans hb)
      simp [hkb, SockKind.isEnd] at hk
    simp [Op.effect, Core.close, hxs, hfar, Ne.symm hxo, hx']

/-! ### handle_offline -/

/-- **The memory with which `handle_packet` calls `handle_offline(t)`**, on a `SYNC(0)` or on
a `CNXN` of a connected transport. -/
def System.GoesOffline (s : System) (io : Io) (t : TId) (c : Core) : Prop :=
  ∃ p c₀ T, s.Handles io t p c₀ ∧ c₀.transports t = some T ∧
    (p.msg.command = A_SYNC ∧ p.msg.arg0 = 0 ∨
      p.msg.command = A_CNXN ∧ T.connectionState ≠ .offline) ∧
    c = c₀.putTransport t (some { T with connectionState := .offline })

/-- **What `handle_offline(t)` does by the time it returns**: every callback that was
registered has run once, the list is empty, no remote socket refers to `t`, no socket of
`local_socket_list` is bound to it, and no id finds a socket that was bound to it. -/
structure Unbinds (t : TId) (c c' : Core) : Prop where
  once : ∃ T, c.transports t = some T ∧ T.disconnects.Nodup ∧
    handleOffline t c = (do
      modTransport t fun T => { T with online := false }
      callbacks T.disconnects) c
  empty : ∃ T, c'.transports t = some T ∧ T.disconnects = []
  remote : ∀ r b, c'.sockets r = some b → b.kind = .remoteSocket → b.transport ≠ some t
  unbound : ∀ x ∈ c'.localSocketList, ∀ a, c'.sockets x = some a → ¬c'.Bound t a
  unreached : ∀ id x a, c'.find id = some x → c.sockets x = some a → ¬c.Bound t a

/-- What `handle_offline` does to the memory. -/
theorem offlining_of_ok {u : Unit} (hw : WF w) (h : handleOffline t w.core = .ok (u, c')) :
    ∃ H T, Offlining w.core t ⟨c', H⟩ ∧ c'.transports t = some T ∧ T.disconnects = [] := by
  let P : Work → Op → Prop := fun _ o =>
    (∃ T o' st q, o = .conn t T o' st q) ∨ ∃ d, o = .close d ∧ d.Disconnects t
  have hdoes : Does P w (handleOffline t) _ :=
    Does.handleOffline (fun T o st q _ => .inl ⟨T, o, st, q, rfl⟩) fun _ d hd =>
      .inr ⟨d, rfl, hd⟩
  obtain ⟨H, hops, -, T, -, hT⟩ := wp_ok (hdoes hw) h
  refine ⟨H, _, ?_, hT, rfl⟩
  refine hops.invariant (I := Offlining w.core t) ⟨hw, fun _ _ hx _ => hx,
    fun _ _ hx _ _ _ => hx⟩ ?_
  rintro v o hv hg (⟨T, o', st, q, rfl⟩ | ⟨d, rfl, hd⟩)
  · exact ⟨hv.wf.op hg, hv.same, hv.left⟩
  · exact hv.close hg hd

/-- `handle_offline` starts from consistent data. -/
theorem System.GoesOffline.wf (h : s.GoesOffline io t c) (hw : WF ⟨s.core, []⟩) :
    ∃ H, WF ⟨c, H⟩ := by
  obtain ⟨p, c₀, T, hh, hT, -, rfl⟩ := h
  exact ⟨_, (hh.wf hw).op (o := .conn t T T.online .offline T.quals) hT⟩

theorem System.GoesOffline.transport (h : s.GoesOffline io t c) :
    ∃ T, c.transports t = some T := by
  obtain ⟨p, c₀, T, -, -, -, rfl⟩ := h
  exact ⟨_, by simp [Core.putTransport]; rfl⟩

theorem System.GoesOffline.sockets_eq (h : s.GoesOffline io t c) :
    c.sockets = s.core.sockets := by
  obtain ⟨p, c₀, T, hh, -, -, rfl⟩ := h
  exact hh.sockets_eq

theorem System.GoesOffline.list_eq (h : s.GoesOffline io t c) :
    c.localSocketList = s.core.localSocketList := by
  obtain ⟨p, c₀, T, hh, -, -, rfl⟩ := h
  exact hh.list_eq

/-- A socket that is found by its id is on the list. -/
theorem Core.mem_of_find {id : UInt32} (h : c.find id = some x) : x ∈ c.localSocketList :=
  List.mem_of_find?_eq_some h

/-- A local socket that is left and bound to `t` was bound to it before. -/
theorem Offlining.bound_before (h : Offlining c t v) (hx : v.core.sockets x = some a)
    (hk : a.kind.isEnd = true) (hb : v.core.Bound t a) : c.Bound t a := by
  obtain hb | ⟨q, b, hp, hq, hbt⟩ := hb
  · exact .inl hb
  · obtain ⟨b', hq', -, hf⟩ := h.wf.graph.peer hx hp
    obtain rfl : b = b' := Option.some.inj (hq.symm.trans hq')
    exact .inr ⟨q, b, hp, h.same q b hq (h.wf.closing_false hq (hf.not_local hk)), hbt⟩

/-- A local socket that is left is still bound to `t` if it was before. -/
theorem Offlining.bound_after (h : Offlining c t v) (hx : v.core.sockets x = some a)
    (hk : a.kind.isEnd = true) (hb : c.Bound t a) : v.core.Bound t a := by
  obtain hb | ⟨q, b, hp, hq, hbt⟩ := hb
  · exact .inl hb
  · obtain ⟨b', hq', -, hf⟩ := h.wf.graph.peer hx hp
    have hsame := h.same q b' hq' (h.wf.closing_false hq' (hf.not_local hk))
    obtain rfl : b = b' := Option.some.inj (hq.symm.trans hsame)
    exact .inr ⟨q, b, hp, hq', hbt⟩

/-- A local socket that is left has no peer on `t` once the disconnect list is empty. -/
theorem Offlining.not_peerOn (h : Offlining c t v) (hT : v.core.transports t = some T)
    (hd : T.disconnects = []) (hx : v.core.sockets x = some a) (hk : a.kind.isEnd = true) :
    ¬c.PeerOn t a := by
  rintro ⟨q, b, hp, hq, hkb, hbt⟩
  obtain ⟨b', hq', -, hf⟩ := h.wf.graph.peer hx hp
  have hsame := h.same q b' hq' (h.wf.closing_false hq' (hf.not_local hk))
  obtain rfl : b = b' := Option.some.inj (hq.symm.trans hsame)
  have hmem := (h.wf.graph.disconnect_iff hT hq').mpr ⟨hkb, hbt⟩
  simp [hd] at hmem

/-- **Nothing stays bound to `t` exactly if every socket of `local_socket_list` that is bound
to it has a remote socket of it as its peer.** -/
theorem offline_unbinds_iff {u : Unit} (hs : Reachable s) (hc : s.GoesOffline io t c)
    (h : handleOffline t c = .ok (u, c')) :
    Unbinds t c c' ↔ ∀ x ∈ s.core.localSocketList, ∀ a, s.core.sockets x = some a →
      s.core.Bound t a → s.core.PeerOn t a := by
  obtain ⟨H, hw⟩ := hc.wf hs.wf
  obtain ⟨H', T', hoff, hT', hd'⟩ := offlining_of_ok hw h
  have hg' := hoff.wf.graph
  -- the sockets are those of the state before
  have hbound (a : ASocket) : s.core.Bound t a ↔ c.Bound t a := by
    simp only [Core.Bound, hc.sockets_eq]
  have hpeerOn (a : ASocket) : s.core.PeerOn t a ↔ c.PeerOn t a := by
    simp only [Core.PeerOn, hc.sockets_eq]
  simp only [hbound, hpeerOn, ← hc.sockets_eq, ← hc.list_eq]
  constructor
  · intro hun x hx a ha hb
    by_contra hno
    obtain ⟨a', ha', hk, hcl⟩ := (hw.graph.mem_list x).mp hx
    obtain rfl : a = a' := Option.some.inj (ha.symm.trans ha')
    have hleft := hoff.left x a ha hk hcl hno
    exact hun.unbound x (hg'.mem_list_of hleft hk hcl) a hleft (hoff.bound_after hleft hk hb)
  · intro hall
    have hnot (x : SockId) (hx : x ∈ c'.localSocketList) (a : ASocket)
        (ha : c'.sockets x = some a) : ¬c.Bound t a := by
      intro hb
      obtain ⟨a', ha', hk, hcl⟩ := (hg'.mem_list x).mp hx
      obtain rfl : a = a' := Option.some.inj (ha.symm.trans ha')
      have hsame := hoff.same x a ha hcl
      exact hoff.not_peerOn hT' hd' ha hk
        (hall x (hw.graph.mem_list_of hsame hk hcl) a hsame hb)
    refine ⟨?_, ⟨T', hT', hd'⟩, fun r b hr hkb hbt => ?_, fun x hx a ha hb => ?_,
      fun id x a hf ha hb => ?_⟩
    · obtain ⟨T, hT⟩ := hc.transport
      exact ⟨T, hT, (hw.graph.disconnects hT).1, handleOffline_eq hw hT⟩
    · have hmem := (hg'.disconnect_iff hT' hr).mpr ⟨hkb, hbt⟩
      simp [hd'] at hmem
    · obtain ⟨a', ha', hk, -⟩ := (hg'.mem_list x).mp hx
      obtain rfl : a = a' := Option.some.inj (ha.symm.trans ha')
      exact hnot x hx a ha (hoff.bound_before ha hk hb)
    · have hx := Core.mem_of_find hf
      obtain ⟨a', ha', -, hcl⟩ := (hg'.mem_list x).mp hx
      obtain rfl : a' = a := Option.some.inj ((hoff.same x a' ha' hcl).symm.trans ha)
      exact hnot x hx a' ha' hb

/-- The memory with which the first pending callback takes `t` offline, if it does. -/
def System.offlineCall (s : System) (io : Io) (t : TId) : Option Core :=
  (s.packetCall io t).bind fun (p, c) => (c.transports t).bind fun T =>
    if p.msg.command = A_SYNC ∧ p.msg.arg0 = 0 ∨
        p.msg.command = A_CNXN ∧ T.connectionState ≠ .offline then
      some (c.putTransport t (some { T with connectionState := .offline }))
    else none

theorem System.goesOffline_of_offlineCall (h : s.offlineCall io t = some c) :
    s.GoesOffline io t c := by
  obtain ⟨⟨p, c₀⟩, hp, h⟩ := Option.bind_eq_some_iff.mp h
  obtain ⟨T, hT, h⟩ := Option.bind_eq_some_iff.mp h
  split at h
  · next hmsg =>
    obtain rfl := Option.some.inj h
    exact ⟨p, c₀, T, s.handles_of_packetCall hp, hT, hmsg, rfl⟩
  · cases h

/-- The call returns in a memory with `P`. -/
def System.offlineReturns (s : System) (io : Io) (t : TId) (P : Core → Bool) : Bool :=
  (s.offlineCall io t).any fun c =>
    match handleOffline t c with
    | .ok (_, c') => P c'
    | .error _ => false

theorem System.exists_offline {P : Core → Bool} (h : s.offlineReturns io t P = true) :
    ∃ c c', s.GoesOffline io t c ∧ handleOffline t c = .ok ((), c') ∧ P c' = true := by
  obtain ⟨c, hc, hP⟩ := (Option.any_eq_true _ _).mp h
  split at hP
  · next u c' hm => exact ⟨c, c', s.goesOffline_of_offlineCall hc, hm, hP⟩
  · cases hP

/-- The remote has sent a `CNXN`, and its callback is next. -/
def greeted (t : TId) : List Action := (greet t).dropLast

/-- A connected remote with an open shell connects again. -/
theorem offline_unbinds_shell : ∃ s c c', Reachable s ∧ s.GoesOffline {} 0 c ∧
    handleOffline 0 c = .ok ((), c') ∧ s.core.localSocketList = [0] ∧ Unbinds 0 c c' := by
  let peers : System → SockId → Bool := fun s x => (s.core.sockets x).any fun a =>
    a.peer.any fun q => (s.core.sockets q).any fun b =>
      b.kind = .remoteSocket ∧ b.transport = some 0
  obtain ⟨s, hs, hP⟩ := exists_reachable (connect 0 .usb ++ openShell 0 5 9 ++ greeted 0)
    (P := fun s => s.offlineReturns {} 0 (fun _ => true) && peers s 0 &&
      decide (s.core.localSocketList = [0])) (by decide +kernel)
  simp only [Bool.and_eq_true] at hP
  obtain ⟨⟨hret, hpeer⟩, hlist⟩ := hP
  obtain ⟨c, c', hc, hm, -⟩ := s.exists_offline hret
  have hlist := of_decide_eq_true hlist
  refine ⟨s, c, c', hs, hc, hm, hlist, (offline_unbinds_iff hs hc hm).mpr
    fun x hx a ha _ => ?_⟩
  obtain rfl : x = 0 := by simpa [hlist] using hx
  obtain ⟨a', ha', hp⟩ := (Option.any_eq_true _ _).mp hpeer
  obtain rfl : a = a' := Option.some.inj (ha.symm.trans ha')
  obtain ⟨q, hq, hp⟩ := (Option.any_eq_true _ _).mp hp
  obtain ⟨b, hb, hp⟩ := (Option.any_eq_true _ _).mp hp
  obtain ⟨hk, ht⟩ := of_decide_eq_true hp
  exact ⟨q, b, hq, hb, hk, ht⟩

/-- A client of the smart socket waits for its `OKAY` when the remote connects again: the
callbacks do not find it, and it stays bound to the transport under the id it had. -/
theorem waiting_client_stays_bound : ∃ s c c', Reachable s ∧ s.GoesOffline {} 0 c ∧
    handleOffline 0 c = .ok ((), c') ∧ c'.find 1 = some 0 ∧ ¬Unbinds 0 c c' := by
  obtain ⟨s, hs, hP⟩ := exists_reachable (connect 0 .usb ++ askShell 0 9 ++ greeted 0)
    (P := fun s => s.offlineReturns {} 0 fun c' =>
      decide (c'.find 1 = some 0) && (c'.sockets 0).any fun a : ASocket =>
        decide (a.transport = some 0))
    (by decide +kernel)
  obtain ⟨c, c', hc, hm, hP⟩ := s.exists_offline hP
  rw [Bool.and_eq_true] at hP
  have hfind := of_decide_eq_true hP.1
  obtain ⟨a, ha, ht⟩ := (Option.any_eq_true _ _).mp hP.2
  refine ⟨s, c, c', hs, hc, hm, hfind, fun hun => ?_⟩
  exact hun.unbound 0 (Core.mem_of_find hfind) a ha (.inl (of_decide_eq_true ht))

end Adbd
