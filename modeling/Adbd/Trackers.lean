import Adbd.Isolation

/-!
# No Freed Socket Is Followed

The socket graph holds in every reachable state, so a socket's peer, the members of the two
lists of local sockets and the nodes of the disconnect lists are live. One list is not
covered: `_jdwp_trackers_list`. `jdwp_tracker_close` unlinks a tracker, but
`close_all_sockets` runs `local_socket_close_locked` on every socket of the transport, a
tracker among them, and that frees it where it is linked.

Here this is shown to be the only way to a dangling pointer: as long as
`close_all_sockets` finds no tracker, no handler follows a pointer to a freed socket.

## Main definitions

* `Core.Linked`: the four clauses of the socket graph.
* `SparesTrackers`: a step does not close a tracker through `close_all_sockets`.
* `Core.Tracked`: what a node of the list of trackers should be.

## Main results

* `TrackersLive.op`: what keeps the trackers on the list live.
* `trackers_alive`: the nodes of the list are live trackers with a peer, each once.
* `no_use_after_free`: runs that spare the trackers follow no dangling pointer.
-/

namespace Adbd

open Program Custody

variable {c c' : Core} {w w' : Work} {o : Op} {x y : SockId} {a : ASocket}

/-! ### The clauses of the graph -/

/-- **The socket graph**, in four clauses: peers are live and point back; a remote socket has
a peer and one disconnect node, on its own transport; a local socket is on exactly one of
the two lists; a closing socket has no peer, has data left, and is not found. -/
structure Core.Linked (c : Core) : Prop where
  peers : ∀ {s a q}, c.sockets s = some a → a.peer = some q →
    ∃ b, c.sockets q = some b ∧ b.peer = some s
  remotes : ∀ {s a}, c.sockets s = some a → a.kind = .remoteSocket → a.peer ≠ none ∧
    ∃ t T, a.transport = some t ∧ c.transports t = some T ∧ T.disconnects.count s = 1 ∧
      ∀ t' T', t' ≠ t → c.transports t' = some T' → s ∉ T'.disconnects
  lists : ∀ {s a}, c.sockets s = some a → a.kind.isEnd = true →
    c.localSocketList.count s + c.localSocketClosingList.count s = 1
  closing : ∀ {s}, s ∈ c.localSocketClosingList → ∃ a, c.sockets s = some a ∧ a.peer = none ∧
    a.closing = true ∧ a.queue ≠ [] ∧ ∀ id, c.find id ≠ some s

/-- The graph that the operations keep has the four clauses. -/
theorem Graph.linked (h : Graph c) : c.Linked where
  peers hs hp := by
    obtain ⟨b, hb, hback, -⟩ := h.peer hs hp
    exact ⟨b, hb, hback⟩
  remotes {s a} hs hk := by
    refine ⟨fun hp => ?_, ?_⟩
    · rcases (h.shape hs).peer.mp hp with hn | hc
      · simp [hk] at hn
      · exact absurd ((h.shape hs).closing hc).1 (by simp [hk, SockKind.isLocal])
    · obtain ⟨t, T, ht, hT, hm⟩ := h.remote hs hk
      refine ⟨t, T, ht, hT, List.count_eq_one_of_mem (h.disconnects hT).1 hm, ?_⟩
      intro t' T' hne hT' hm'
      obtain ⟨a', ha', -, ht'⟩ := (h.disconnects hT').2 s hm'
      obtain rfl : a = a' := Option.some.inj (hs.symm.trans ha')
      exact hne (Option.some.inj (ht'.symm.trans ht))
  lists {s a} hs he := by
    cases hc : a.closing with
    | false =>
        have hin : s ∈ c.localSocketList := h.mem_list_of hs he hc
        have hout : s ∉ c.localSocketClosingList := by
          intro hm
          obtain ⟨a', ha', hc'⟩ := (h.mem_closing s).mp hm
          obtain rfl : a = a' := Option.some.inj (hs.symm.trans ha')
          simp [hc] at hc'
        rw [List.count_eq_one_of_mem h.nodup_list hin, List.count_eq_zero_of_not_mem hout]
    | true =>
        have hin : s ∈ c.localSocketClosingList := (h.mem_closing s).mpr ⟨a, hs, hc⟩
        have hout : s ∉ c.localSocketList := by
          intro hm
          obtain ⟨a', ha', -, hc'⟩ := (h.mem_list s).mp hm
          obtain rfl : a = a' := Option.some.inj (hs.symm.trans ha')
          simp [hc] at hc'
        rw [List.count_eq_one_of_mem h.nodup_closing hin, List.count_eq_zero_of_not_mem hout]
  closing {s} hm := by
    obtain ⟨a, ha, hc⟩ := (h.mem_closing s).mp hm
    refine ⟨a, ha, (h.shape ha).peer.mpr (.inr hc), hc, ((h.shape ha).closing hc).2, ?_⟩
    intro id hf
    obtain ⟨a', ha', -, hc'⟩ := (h.mem_list s).mp (List.mem_of_find?_eq_some hf)
    obtain rfl : a = a' := Option.some.inj (ha.symm.trans ha')
    simp [hc] at hc'

/-! ### The list of trackers -/

/-- The operation closes a tracker through `local_socket_close_locked`. -/
def Op.Strands (o : Op) : Prop :=
  ∃ d, o = .close d ∧ d.how = .locked ∧ d.self.kind = .jdwpTracker

/-- A tracker on the list survives every operation that does not close it. -/
theorem Op.tracker_live (hgr : Graph w.core) (hg : o.Guard w) (hx : w.core.sockets x = some a)
    (hk : a.kind = .jdwpTracker) (hc : ∀ d, o = .close d → d.sock ≠ x) :
    (o.effect w.core).sockets x ≠ none := by
  by_cases ho : o.sock = some x
  · have hnot {b : ASocket} (hs : w.core.sockets x = some b) : b.kind.isLocal = false ∧
        b.kind ≠ .smartSocket ∧ b.kind ≠ .localSocket ∧ b.kind ≠ .localNotify := by
      obtain rfl : a = b := Option.some.inj (hx.symm.trans hs)
      simp [hk, SockKind.isLocal]
    cases o with (dsimp only [Op.sock] at ho; cases ho)
    | deliver | sendList => simp [Op.effect, Core.note, Core.push, Core.putTransport, hx]
    | flags => simp [Op.effect, Core.putSock]
    | collectFirst | collectMore => exact absurd hg.2.1 (hnot hg.1).2.1
    | choose => exact absurd hg.2 (hnot hg.1).2.1
    | rig s b ss b' =>
        obtain ⟨hs, hp, hb, hk', -⟩ := hg
        obtain ⟨b'', hb'', -, hf⟩ := hgr.peer hs hp
        obtain rfl : b' = b'' := Option.some.inj (hb.symm.trans hb'')
        obtain rfl : a = b := Option.some.inj (hx.symm.trans hs)
        rw [hk, hk'] at hf
        cases hf
    | readOff =>
        obtain ⟨b, hs, hk'⟩ := hg
        exact absurd hk' (hnot hs).2.2.2
    | ready =>
        obtain ⟨b, hs, hk', -⟩ := hg
        exact absurd hk' (hnot hs).2.2.1
    | wrteFail =>
        obtain ⟨b, hs, hk', -⟩ := hg
        simp [(hnot hs).1] at hk'
    | attach | wrteQueue | wrteBlock | wrteDone | drain | drainDestroy =>
        have hk' := hg.2.1
        simp [(hnot hg.1).1] at hk'
    | drainReady | readWrte => exact absurd hg.2.1 (hnot hg.1).2.2.1
    | close d => exact absurd rfl (hc d rfl)
  · rw [(o.untouched_end hgr hg hx (by simp [hk, SockKind.isEnd]) ho).sock, hx]
    simp

/-- An operation that strands no tracker keeps the trackers on the list live. -/
theorem TrackersLive.op (h : TrackersLive w.core) (hgr : Graph w.core) (hg : o.Guard w)
    (hs : ¬o.Strands) : TrackersLive (o.effect w.core) := by
  intro x hx
  have hold (hm : x ∈ w.core.jdwpTrackersList) (hc : ∀ d, o = .close d → d.sock ≠ x) :
      (o.effect w.core).sockets x ≠ none := by
    obtain ⟨a, ha⟩ := Option.ne_none_iff_exists'.mp (h x hm)
    exact o.tracker_live hgr hg ha ((hgr.mem_trackers ha).mp hm) hc
  cases o with
  | openStream d =>
      have hx' : x ∈ if d.kind = .jdwpTracker then w.core.jdwpTrackersList ++ [w.core.nextSock]
          else w.core.jdwpTrackersList := hx
      by_cases hn : x = w.core.nextSock
      · simp [Op.effect, Core.openStream, hn]
      · refine hold ?_ (by simp)
        split at hx'
        · simpa [hn] using hx'
        · exact hx'
  | close d =>
      have hx' : x ∈ if d.self.kind = .jdwpTracker ∧ d.how ≠ .locked then
          w.core.jdwpTrackersList.erase d.sock else w.core.jdwpTrackersList := hx
      split at hx'
      · obtain ⟨hne, hm⟩ := hgr.trackers.1.mem_erase_iff.mp hx'
        exact hold hm fun d' hd => by
          obtain rfl := Op.close.inj hd
          exact Ne.symm hne
      · next hnot =>
        refine hold hx' fun d' hd => ?_
        obtain rfl := Op.close.inj hd
        rintro rfl
        have hk : d.self.kind = .jdwpTracker := (hgr.mem_trackers hg.1).mp hx'
        refine hs ⟨d, rfl, ?_, hk⟩
        by_contra hn
        exact hnot ⟨hk, hn⟩
  | drain s b d =>
      rw [Op.drain_trackers] at hx
      exact hold hx (by simp)
  | drainDestroy s b d notes =>
      refine hold ?_ (by simp)
      have hk : b.kind ≠ .jdwpTracker := by
        have hl := hg.2.1
        rintro hk
        simp [hk, SockKind.isLocal] at hl
      simpa [Op.effect, Core.close, Core.drained, Core.freePkts, Core.putSock, hk] using hx
  | drainReady s b d far =>
      rw [Op.drainReady_trackers] at hx
      exact hold hx (by simp)
  | wrteDone t s b T m p =>
      rw [Op.wrteDone_trackers] at hx
      exact hold hx (by simp)
  | _ => exact hold hx (by simp)

/-! ### Steps -/

/-- A live tracker belongs to `t`, in the sense of `close_all_sockets`. -/
def Core.HasTracker (c : Core) (t : TId) : Prop :=
  ∃ x a, c.sockets x = some a ∧ a.kind = .jdwpTracker ∧ c.belongs t x = true

/-- **A step spares the trackers**: if it runs `close_all_sockets(t)`, which the input thread
does when it leaves and the main loop when it removes `t`, no tracker belongs to `t`. -/
def SparesTrackers (s : System) (a : Action) : Prop :=
  ∀ t, s.task a = .closeAll t ∨ s.task a = .remove t → ¬s.core.HasTracker t

/-- Closing a stream gives no transport a tracker. -/
theorem Core.HasTracker.of_close {d : Close} {t : TId} (h : (c.close d).HasTracker t)
    (hgr : Graph (c.close d)) : c.HasTracker t := by
  obtain ⟨x, a, hx, hk, hb⟩ := h
  have hfate {z : ASocket} (hz : d.fate = some z) : z.peer = none ∧ z.closing = true := by
    rw [Close.fate] at hz
    split at hz
    · cases hz
    · obtain rfl := Option.some.inj hz
      exact ⟨rfl, rfl⟩
  have hsock {y : SockId} {z : ASocket} (hy : (c.close d).sockets y = some z)
      (hne : y ≠ d.sock) : c.sockets y = some z := by
    simp only [Core.close, hne, if_false] at hy
    split at hy
    · cases hy
    · exact hy
  have hxd : x ≠ d.sock := by
    rintro rfl
    have hz : d.fate = some a := by simpa [Core.close] using hx
    have hl := ((hgr.shape hx).closing (hfate hz).2).1
    simp [hk, SockKind.isLocal] at hl
  have hx' := hsock hx hxd
  refine ⟨x, a, hx', hk, ?_⟩
  rcases Core.belongs_far hx hb with ht | ⟨q, b, hfar, ht⟩
  · simp [Core.belongs, hx', ht]
  · obtain ⟨hp, hq⟩ : a.peer = some q ∧ (c.close d).sockets q = some b := by
      simp only [Core.farOf, Option.bind_eq_some_iff, Option.map_eq_some_iff] at hfar
      obtain ⟨q', hp, b', hb', heq⟩ := hfar
      obtain ⟨rfl, rfl⟩ := Prod.mk.inj heq
      exact ⟨hp, hb'⟩
    have hqd : q ≠ d.sock := by
      rintro rfl
      have hz : d.fate = some b := by simpa [Core.close] using hq
      obtain ⟨b', hb', hback, -⟩ := hgr.peer hx hp
      obtain rfl : b = b' := Option.some.inj (hq.symm.trans hb')
      simp [(hfate hz).1] at hback
    simp [Core.belongs, hx', Core.farOf, hp, hsock hq hqd, ht]

/-- `close_all_sockets` and the removal of a transport give no transport a tracker. -/
theorem Task.May.hasTracker {k : Task} {e : Core} {t : TId}
    (hk : k = .closeAll t ∨ k = .remove t)
    (h : k.May e w o) (hgr : Graph (o.effect w.core)) (ht : (o.effect w.core).HasTracker t) :
    w.core.HasTracker t := by
  have hfrom {c c' : Core} (hs : c'.sockets = c.sockets) (h : c'.HasTracker t) :
      c.HasTracker t := by
    obtain ⟨x, a, hx, hk, hb⟩ := h
    refine ⟨x, a, hs ▸ hx, hk, ?_⟩
    simpa only [Core.belongs, Core.farOf, hs] using hb
  cases o with
  | io | pids | note | newPkt | freePkt | take | force | pendRead | unlink | unregister =>
      exact hfrom rfl ht
  | close d => exact ht.of_close hgr
  | select | accept | readOff | popMain | popIo | post | closePipes | register | drain
  | drainDestroy =>
      rcases hk with rfl | rfl <;> cases h
  | deliver =>
      obtain ⟨_, hk', -⟩ := h
      rcases hk with rfl | rfl <;> cases hk'
  | lose =>
      obtain ⟨_, _, _, _, ⟨⟨_, hk', -⟩, -⟩, -⟩ := h
      rcases hk with rfl | rfl <;> cases hk'
  | send | openStream | conn =>
      obtain ⟨_, hk', -⟩ := h
      rcases hk with rfl | rfl <;> cases hk'
  | sendList =>
      obtain ⟨hk' | ⟨_, _, hk', -⟩, -⟩ := h <;> rcases hk with rfl | rfl <;> cases hk'
  | flags =>
      obtain hk' | ⟨_, _, hk', -⟩ := h <;> rcases hk with rfl | rfl <;> cases hk'
  | collectFirst | collectMore | choose =>
      obtain ⟨_, _, hk', -⟩ := h
      rcases hk with rfl | rfl <;> cases hk'
  | rig | readWrte | drainReady =>
      have hk' := h.1
      rcases hk with rfl | rfl <;> cases hk'
  | attach | ready =>
      obtain ⟨⟨_, hk', -⟩, -⟩ := h
      rcases hk with rfl | rfl <;> cases hk'
  | wrteQueue | wrteBlock | wrteDone =>
      obtain ⟨⟨⟨_, hk', -⟩, -⟩, -⟩ := h
      rcases hk with rfl | rfl <;> cases hk'
  | wrteFail =>
      obtain ⟨_, ⟨⟨_, hk', -⟩, -⟩, -⟩ := h
      rcases hk with rfl | rfl <;> cases hk'

/-- A tracker that `local_socket_close_locked` closes belongs to the transport it is for. -/
theorem Task.May.strands {k : Task} {e : Core} (h : k.May e w o) (hg : o.Guard w)
    (hs : o.Strands) :
    ∃ t, (k = .closeAll t ∨ k = .remove t) ∧ w.core.HasTracker t := by
  obtain ⟨d, rfl, hd, hk⟩ := hs
  simp only [Task.May, Task.Closes, hd] at h
  obtain ⟨-, t, ht, hbel⟩ := h
  obtain ⟨hself, -, hpeer, -, hfar⟩ := hg
  refine ⟨t, ht, d.sock, d.self, hself, hk, ?_⟩
  rcases hbel with hbel | ⟨q, b, hq, hbel⟩
  · simp [Core.belongs, hself, hbel]
  · simp [Core.belongs, hself, Core.farOf, hpeer, hq, hfar q b hq, hbel]

/-- A handler that spares the trackers keeps those on the list live, at every point. -/
theorem Ops.trackersLive {k : Task} {e : Core} (h : Ops (k.May e) w w') (hw : WF w)
    (hl : TrackersLive w.core)
    (hk : ∀ t, k = .closeAll t ∨ k = .remove t → ¬w.core.HasTracker t) :
    TrackersLive w'.core := by
  refine (h.invariant (I := fun v => WF v ∧ TrackersLive v.core ∧
    ∀ t, k = .closeAll t ∨ k = .remove t → ¬v.core.HasTracker t) ⟨hw, hl, hk⟩ ?_).2.1
  rintro v o ⟨hv, hlv, hkv⟩ hg hmay
  have hv' := hv.op hg
  refine ⟨hv', hlv.op hv.graph hg fun hs => ?_, fun t ht hT => ?_⟩
  · obtain ⟨t, ht, hT⟩ := hmay.strands hg hs
    exact hkv t ht hT
  · exact hkv t ht (hmay.hasTracker ht hv'.graph hT)

variable {s s' : System} {b : Action}

/-- Runs that spare the trackers keep those on the list live. -/
theorem trackersLive_of_spared (h : Trans.Runs step SparesTrackers System.init s) :
    TrackersLive s.core := by
  induction h with
  | refl => simp [TrackersLive, System.init, Core.init]
  | tail hrun hok hs ih =>
      have hr := Reachable.of_runs hrun
      exact (step_ops hr.wf hr.lives.unregistered hs).trackersLive hr.wf ih hok

/-- **No freed socket is followed** in a run that spares the trackers: the socket graph holds
in the state reached, and no further step that spares them stops with a use after free. -/
theorem no_use_after_free (h : Trans.Runs step SparesTrackers System.init s) :
    s.core.Linked ∧
      ∀ b x, SparesTrackers s b → step s b ≠ .error (.fault (.useAfterFree x)) := by
  have hr := Reachable.of_runs h
  refine ⟨hr.wf.graph.linked, fun b x hb hstep => ?_⟩
  obtain ⟨v, hops, hx, hdead⟩ := step_fault hr.wf hr.lives.unregistered hstep
  exact hops.trackersLive hr.wf (trackersLive_of_spared h) hb x hx hdead

/-- A tracker is opened, and told of a process. -/
theorem no_use_after_free_tracked : ∃ s, Trans.Runs step SparesTrackers System.init s ∧
    s.core.jdwpTrackersList = [0] ∧ s.core.Linked ∧
    step s (.dispatch {}) ≠ .error (.fault (.useAfterFree 0)) := by
  let test : System → Action → Bool := fun s a =>
    match s.task a with
    | .closeAll _ | .remove _ => false
    | _ => true
  have htest (s : System) (a : Action) (h : test s a = true) : SparesTrackers s a := by
    intro t ht
    rcases ht with ht | ht <;> simp [test, ht] at h
  obtain ⟨s, hs, hP⟩ := exists_run
    (connect 0 .usb ++ openTracker 0 5 ++ event .jdwp Events.onlyRead { pids := [42] }) htest
    (P := fun s => s.core.jdwpTrackersList = [0] ∧ test s (.dispatch {})) (by decide +kernel)
  obtain ⟨hl, ht⟩ := of_decide_eq_true hP
  have hok := no_use_after_free hs
  exact ⟨s, hs, hl, hok.1, hok.2 _ _ (htest s _ ht)⟩

/-! ### What the list holds -/

/-- The node of a live tracker with a peer, once on the list. -/
structure Core.Tracked (c : Core) (x : SockId) : Prop where
  live : ∃ a, c.sockets x = some a ∧ a.kind = .jdwpTracker
  peer : ∀ a, c.sockets x = some a → ∃ q b, a.peer = some q ∧ c.sockets q = some b ∧
    b.kind = .remoteSocket
  once : c.jdwpTrackersList.count x = 1

/-- In consistent data whose list holds no freed socket every node is one of these. -/
theorem Graph.tracked (h : Graph c) (hl : TrackersLive c) (hx : x ∈ c.jdwpTrackersList) :
    c.Tracked x := by
  obtain ⟨a, ha⟩ := Option.ne_none_iff_exists'.mp (hl x hx)
  have hk : a.kind = .jdwpTracker := (h.mem_trackers ha).mp hx
  refine ⟨⟨a, ha, hk⟩, fun a' ha' => ?_, List.count_eq_one_of_mem h.trackers.1 hx⟩
  obtain rfl : a = a' := Option.some.inj (ha.symm.trans ha')
  obtain ⟨q, b, hp, hb, hkb⟩ := h.jdwp_peer ha (by simp [hk, SockKind.isJdwp])
  exact ⟨q, b, hp, hb, hkb⟩

/-- The peer of `x` is a remote socket, on a transport that is there. -/
def Core.FacesRemote (c : Core) (x : SockId) : Prop :=
  ∃ q b a t T, RemoteOf c q b x a t T ∧ a.peer = some q

theorem Graph.facesRemote (h : Graph c) (hx : c.Tracked x) : c.FacesRemote x := by
  obtain ⟨⟨a, ha, hk⟩, hpeer, -⟩ := hx
  obtain ⟨q, b, hp, hb, hkb⟩ := hpeer a ha
  obtain ⟨t, T, hr⟩ := h.remoteOf ha hp hb hkb
  exact ⟨q, b, a, t, T, hr, hp⟩

/-- Nothing that is sent changes that. -/
theorem Core.FacesRemote.push {t : TId} {T : ATransport} {p : APacket} {o : Obs}
    (h : c.FacesRemote x) : ((c.push t T p).note o).FacesRemote x := by
  obtain ⟨q, b, a, t', T', hr, hp⟩ := h
  by_cases ht : t' = t
  · subst ht
    exact ⟨q, b, a, t', _, ⟨hr.sock, hr.kind, hr.peer, hr.near, hr.transport,
      Function.update_self ..⟩, hp⟩
  · exact ⟨q, b, a, t', T', ⟨hr.sock, hr.kind, hr.peer, hr.near, hr.transport,
      (Function.update_of_ne ht ..).trans hr.live⟩, hp⟩

/-- Telling the trackers stops only at a closed pipe. -/
theorem wp_jdwpUpdateFrom {msg : List UInt8} {l : List SockId} (h : ∀ y ∈ l, c.FacesRemote y) :
    wp (jdwpUpdateFrom msg l) (fun _ _ => True) (fun f => ∃ t, f = .closedPipe t) c := by
  induction l generalizing c with
  | nil => trivial
  | cons y l ih =>
      have hnew : ∀ z ∈ y :: l, c.newPkt.FacesRemote z := fun z hz => by
        obtain ⟨q, b, a, t, T, hr, hp⟩ := h z hz
        exact ⟨q, b, a, t, T, ⟨hr.sock, hr.kind, hr.peer, hr.near, hr.transport, hr.live⟩, hp⟩
      obtain ⟨q, b, a, t, T, hr, hp⟩ := hnew y (by simp)
      simp only [jdwpUpdateFrom, dataPacket, peerOf, wp_bind, wp_getApacket, wp_pure]
      refine (wp_getSock_of hr.near).mpr ?_
      rw [hp]
      refine (wp_bind ..).mpr (wp_enqueue_remote hr ?_ fun _ => ⟨t, rfl⟩)
      exact ih fun z hz => (hnew z (by simp [hz])).push

/-- **The trackers on the list are alive** in every state of a run that spares them, each is on
it once and has a peer, and telling them follows no freed and no null peer: only a pipe that is
closed can stop it. -/
theorem trackers_alive {s : System} (h : Trans.Runs step SparesTrackers System.init s) :
    (∀ x ∈ s.core.jdwpTrackersList, s.core.Tracked x) ∧
      ∀ f, jdwpProcessListUpdated s.core = .error f → ∃ t, f = .closedPipe t := by
  have hg := (Reachable.of_runs h).wf.graph
  have hall (x : SockId) (hx : x ∈ s.core.jdwpTrackersList) : s.core.Tracked x :=
    hg.tracked (trackersLive_of_spared h) hx
  refine ⟨hall, fun f hf => ?_⟩
  have hwp : wp jdwpProcessListUpdated (fun _ _ => True)
    (fun f => ∃ t, f = .closedPipe t) s.core := by
    rw [jdwpProcessListUpdated, wp_bind, wp_get]
    exact wp_jdwpUpdateFrom fun y hy => hg.facesRemote (hall y hy)
  rwa [wp, hf] at hwp

/-- A tracker is opened and told of a process; it is still on the list. -/
theorem trackers_alive_opened : ∃ s, Trans.Runs step SparesTrackers System.init s ∧
    s.core.jdwpTrackersList = [0] ∧ s.core.Tracked 0 ∧
      ∀ f, jdwpProcessListUpdated s.core = .error f → ∃ t, f = .closedPipe t := by
  let test : System → Action → Bool := fun s a =>
    match s.task a with
    | .closeAll _ | .remove _ => false
    | _ => true
  have htest (s : System) (a : Action) (h : test s a = true) : SparesTrackers s a := by
    intro t ht
    rcases ht with ht | ht <;> simp [test, ht] at h
  obtain ⟨s, hs, hP⟩ := exists_run
    (connect 0 .usb ++ openTracker 0 5 ++ event .jdwp Events.onlyRead { pids := [42] }) htest
    (P := fun s => s.core.jdwpTrackersList = [0]) (by decide +kernel)
  have hl : s.core.jdwpTrackersList = [0] := of_decide_eq_true hP
  have hok := trackers_alive hs
  exact ⟨s, hs, hl, hok.1 0 (by simp [hl]), hok.2⟩

/-- The stream is opened between the going of its transport and `close_all_sockets`: the
tracker is freed and stays on the list, and the next process event follows it. -/
theorem trackers_stranded : ∃ s, Reachable s ∧ 0 ∈ s.core.jdwpTrackersList ∧
    ¬s.core.Tracked 0 ∧ jdwpProcessListUpdated s.core = .error (.useAfterFree 0) := by
  obtain ⟨s, hs, hP⟩ := exists_reachable
    (connect 0 .usb ++ receive 0 A_SYNC 0 0 [] {} ++ greet 0 ++ openTracker 0 5 ++
      List.replicate 4 (.input 0 false))
    (P := fun s => decide (0 ∈ s.core.jdwpTrackersList) && decide (s.core.sockets 0 = none) &&
      decide ((jdwpProcessListUpdated s.core).map (fun _ => ()) = .error (.useAfterFree 0)))
    (by decide +kernel)
  simp only [Bool.and_eq_true, decide_eq_true_eq] at hP
  obtain ⟨⟨hm, hnone⟩, hf⟩ := hP
  refine ⟨s, hs, hm, fun ht => ?_, ?_⟩
  · obtain ⟨a, ha, -⟩ := ht.live
    rw [hnone] at ha
    cases ha
  · cases hu : jdwpProcessListUpdated s.core with
    | ok r => rw [hu] at hf; cases hf
    | error f =>
        rw [hu] at hf
        exact congrArg _ (Except.error.inj hf)

/-- A remote that leaves with `SYNC(0)`, connects again and opens a tracker before the input
thread has seen the `SYNC`: `close_all_sockets` frees the tracker, and the next JDWP event
follows it. -/
theorem tracker_use_after_free : ∃ s, Reachable s ∧
    step s (.dispatch {}) = .error (.fault (.useAfterFree 0)) := by
  obtain ⟨s, hs, hP⟩ := exists_reachable
    (connect 0 .usb ++ receive 0 A_SYNC 0 0 [] {} ++ greet 0 ++ openTracker 0 5 ++
      List.replicate 4 (.input 0 false) ++ [.select [(.jdwp, Events.onlyRead)]])
    (P := fun s => s.faults (.dispatch {}) = some (.useAfterFree 0)) (by decide +kernel)
  exact ⟨s, hs, s.step_of_faults (of_decide_eq_true hP)⟩

end Adbd
