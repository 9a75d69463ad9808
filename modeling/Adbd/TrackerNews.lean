import Adbd.Answers
import Adbd.Trackers

/-!
# What a Tracker Is Told

A remote that opens `track-jdwp` gets the list of debuggable processes at once, and again every
time it changes. The first message is written into a packet, and has room for as many processes
as a packet has; the later ones go through a buffer of 1024 bytes. They are `WRTE`s, but a
tracker does not wait for the remote to acknowledge one before it sends the next.

Trackers are told apart by their ids, which wrap around; nothing is said here about runs in
which they do.

## Main definitions

* `System.lists`: the lists that a step has for a tracker.
* `System.news`: what a step sends for it.
* `Followed`: the daemon, with the lists for a tracker and what was sent for it.

## Main results

* `wp_jdwpUpdateFrom_tells`: every tracker is sent the list once.
* `Op.tracker_old`: where the trackers come from.
* `tracker_told`: a tracker is sent all lists, and nothing else.
-/

namespace Adbd

open Program Custody

variable {c c' : Core} {w w' : Work} {o : Op} {x y q : SockId} {a : ASocket} {s s' : System}
  {t : TId} {T T' : ATransport} {p : APacket} {io : Io} {b : Action} {id rid : UInt32}
  {bs : List UInt8} {l : List SockId}

/-! ### Telling the trackers -/

/-- The loop of `jdwp_process_list_updated` over `l`. -/
inductive Tells (bs : List UInt8) : List SockId → Core → Core → Prop
  | nil {c : Core} : Tells bs [] c c
  | cons {c c' : Core} {x : SockId} {l : List SockId} {id rid : UInt32} {t : TId}
      {T : ATransport} :
      c.route x = some (id, t, rid) → c.transports t = some T →
      Tells bs l (c.tell x t T id rid bs) c' → Tells bs (x :: l) c c'

/-- The stream that a socket is the local end of. -/
theorem RemoteOf.route {d : ASocket} (h : RemoteOf c q d x a t T) (hp : a.peer = some q) :
    c.route x = some (a.id, t, d.id) :=
  Core.route_eq_some.mpr ⟨a, q, d, h.near, hp, h.sock, h.kind, h.transport, rfl, rfl⟩

/-- **Every tracker on the list is sent the list once**, in their order. -/
theorem wp_jdwpUpdateFrom_tells (h : ∀ y ∈ l, c.sockets y = none ∨ c.FacesRemote y) :
    wp (jdwpUpdateFrom bs l) (fun _ => Tells bs l c) (fun _ => True) c := by
  induction l generalizing c with
  | nil => exact .nil
  | cons y l ih =>
      simp only [jdwpUpdateFrom, dataPacket, wp_bind, wp_getApacket, wp_pure]
      rcases h y (List.mem_cons_self ..) with hdead | ⟨q, d, a, t, T, hr, hp⟩
      · -- close_all_sockets freed the tracker and left it on the list
        rw [peerOf, wp_bind, wp_getSock]
        refine ⟨fun a ha => ?_, fun _ => trivial⟩
        cases hdead.symm.trans ha
      · refine (wp_peerOf (by exact hr.near) hp).mpr ?_
        have hr' : RemoteOf c.newPkt q d y a t T :=
          ⟨hr.sock, hr.kind, hr.peer, hr.near, hr.transport, hr.live⟩
        rw [wp_bind]
        refine wp_enqueue_remote hr' ?_ fun _ => trivial
        refine wp_mono (ih fun z hz => ?_)
          (fun _ _ htells => .cons (hr.route hp) hr.live htells)
          fun _ _ => trivial
        rcases h z (List.mem_cons_of_mem _ hz) with hdead | hfaces
        · exact .inl hdead
        obtain ⟨q, d, a, t, T, hr, hp⟩ := hfaces
        exact .inr (Core.FacesRemote.push
          ⟨q, d, a, t, T, ⟨hr.sock, hr.kind, hr.peer, hr.near, hr.transport, hr.live⟩, hp⟩)

namespace Tells

theorem sockets_eq (h : Tells bs l c c') : c'.sockets = c.sockets := by
  induction h with
  | nil => rfl
  | cons _ _ _ ih => exact ih

theorem jdwpList_eq (h : Tells bs l c c') : c'.jdwpList = c.jdwpList := by
  induction h with
  | nil => rfl
  | cons _ _ _ ih => exact ih

/-- What is noted for a socket that is not on the list. -/
theorem about_eq (h : Tells bs l c c') (hx : x ∉ l) : c'.about x = c.about x := by
  induction h with
  | nil => rfl
  | @cons c c' y l id rid t T _ _ _ ih =>
      obtain ⟨hne, hl⟩ := List.ne_and_not_mem_of_not_mem_cons hx
      rw [ih hl]
      simp [Core.about, Core.tell, Core.note, Core.newPkt, Core.push, Core.putTransport,
        Obs.subject, Ne.symm hne]

/-- **What is sent**: for every tracker of `t` on the list one packet, and what is noted for
`x` names the packet for `x`. -/
theorem sends (h : Tells bs l c c') (hl : l.Nodup) (hT : c.transports t = some T)
    (hx : c.route x = some (id, t, rid))
    (hid : ∀ y ∈ l, ∀ r, c.route y = some r → r.1 = id → y = x) :
    ∃ T' new, c'.transports t = some T' ∧ T'.mainToIo = T.mainToIo ++ new ∧
      (∀ p ∈ new, ∃ n id' rid', p = uploadPacket n bs id' rid') ∧
      (x ∈ l → c'.about x = .sent t (some x) (uploadPacket 0 bs id rid).msg :: c.about x ∧
        ∃ n, new.filter (·.msg.arg0 = id) = [uploadPacket n bs id rid]) ∧
      (x ∉ l → new.filter (·.msg.arg0 = id) = []) := by
  induction h generalizing T with
  | nil => exact ⟨T, [], hT, by simp, by simp, by simp, by simp⟩
  | @cons c c' y l id' rid' t' T₁ hy hT₁ htells ih =>
      obtain ⟨hyl, hl⟩ := List.nodup_cons.mp hl
      have hid' (z : SockId) (hz : z ∈ l) := hid z (List.mem_cons_of_mem _ hz)
      -- the transport, with the packet for `y` if `y` is a tracker of it
      obtain ⟨T₂, new₀, hT₂, hio, hnew₀⟩ : ∃ T₂ new₀,
        (c.tell y t' T₁ id' rid' bs).transports t =
          some T₂ ∧ T₂.mainToIo = T.mainToIo ++ new₀ ∧
          new₀ = if t' = t then [uploadPacket c.nextPkt bs id' rid'] else [] := by
        by_cases ht : t' = t
        · subst ht
          obtain rfl := Option.some.inj (hT.symm.trans hT₁)
          exact ⟨_, _, Function.update_self .., rfl, (if_pos rfl).symm⟩
        · exact ⟨T, [], (Function.update_of_ne (Ne.symm ht) ..).trans hT, by simp,
            (if_neg ht).symm⟩
      obtain ⟨T', new, hT', hnew, hshape, hin, hout⟩ := ih hl hT₂ hx hid'
      refine ⟨T', new₀ ++ new, hT', by rw [hnew, hio, List.append_assoc], fun p hp => ?_,
        fun hxl => ?_, fun hxl => ?_⟩
      · rcases List.mem_append.mp hp with hp | hp
        · rw [hnew₀] at hp
          split at hp
          · exact ⟨_, _, _, List.mem_singleton.mp hp⟩
          · cases hp
        · exact hshape p hp
      · rw [List.filter_append]
        by_cases hxy : x = y
        · subst hxy
          obtain ⟨rfl, rfl, rfl⟩ : id' = id ∧ t' = t ∧ rid' = rid := by
            simpa using hy.symm.trans hx
          refine ⟨?_, c.nextPkt, ?_⟩
          · rw [about_eq htells hyl]
            simp [Core.about, Core.tell, Core.note, Core.newPkt, Core.push, Core.putTransport,
              Obs.subject, wrtePacket, APacket.finish]
          · rw [hout hyl, hnew₀, if_pos rfl]
            simp [wrtePacket, APacket.finish]
        · obtain ⟨habout, n, hn⟩ := hin ((List.mem_cons.mp hxl).resolve_left hxy)
          have hne : id' ≠ id := fun h => hxy (hid y (List.mem_cons_self ..) _ hy h).symm
          refine ⟨?_, n, ?_⟩
          · rw [habout]
            simp [Core.about, Core.tell, Core.note, Core.newPkt, Core.push, Core.putTransport,
              Obs.subject, Ne.symm hxy]
          · rw [hn, hnew₀]
            split
            · simp [wrtePacket, APacket.finish, hne]
            · rfl
      · obtain ⟨hxy, hxl⟩ := List.ne_and_not_mem_of_not_mem_cons hxl
        have hne : id' ≠ id := fun h => hxy (hid y (List.mem_cons_self ..) _ hy h).symm
        rw [List.filter_append, hout hxl, hnew₀]
        split
        · simp [wrtePacket, APacket.finish, hne]
        · rfl

end Tells

/-! ### Where trackers come from -/

/-- A tracker keeps its id, and no other socket becomes one. -/
theorem Op.tracker_old (hgr : Graph w.core) (hg : o.Guard w)
    (hx : (o.effect w.core).sockets x = some a) (hk : a.kind = .jdwpTracker) :
    (∃ a₀, w.core.sockets x = some a₀ ∧ a₀.kind = .jdwpTracker ∧ a₀.id = a.id) ∨
      ∃ d, o = .openStream d ∧ x = w.core.nextSock ∧ a = d.near w.core := by
  cases hold : w.core.sockets x with
  | none =>
      refine .inr ?_
      rcases o.newborn hgr hg hold hx with
        ⟨fd, -, ⟨-, hk'⟩ | ⟨hk', -⟩⟩ | ⟨d, rfl, ⟨rfl, -⟩ | hk'⟩ | ⟨-, hk'⟩
      · cases hk.symm.trans hk'
      · cases hk.symm.trans hk'
      · exact ⟨d, rfl, rfl, Option.some.inj (hx.symm.trans (w.core.openStream_near d))⟩
      · cases hk.symm.trans hk'
      · cases hk.symm.trans hk'
  | some a₀ =>
      refine .inl ⟨a₀, rfl, ?_⟩
      cases o.evolves hgr hg hold hx with
      | queue | flags => exact ⟨hk, rfl⟩
      | choose t hs => cases hk.symm.trans hs
      | rig | attach => cases hk
      | close d a' ho hd hself hf =>
          subst ho
          obtain ⟨-, hl⟩ := hgr.fate_isLocal hg.1 hg.2.1 hf
          rw [hk] at hl
          cases hl

/-- The ids of the trackers are among those given out so far, and as long as those are
different they tell the trackers apart. -/
structure Core.TrackerIds (c : Core) (n : Nat) : Prop where
  numbers : c.Numbers n
  old : ∀ {x a}, c.sockets x = some a → a.kind = .jdwpTracker → a.id ∈ Served.firstIds n
  apart : n < 2 ^ 32 → ∀ {x y a d}, c.sockets x = some a → a.kind = .jdwpTracker →
    c.sockets y = some d → d.kind = .jdwpTracker → a.id = d.id → x = y

/-- The next id is a new one. -/
theorem Core.Numbers.not_mem {n : Nat} (h : c.Numbers n) (hn : n + 1 < 2 ^ 32) :
    c.localSocketNextId ∉ Served.firstIds n := by
  have hnd := Served.firstIds_nodup hn
  rw [Served.firstIds_succ, List.nodup_append'] at hnd
  rw [h.next]
  exact fun hm => hnd.2.2 hm (List.mem_singleton_self _)

theorem Core.TrackerIds.op {n : Nat} (h : w.core.TrackerIds n) (hgr : Graph w.core)
    (hg : o.Guard w) : ∃ n', (o.effect w.core).TrackerIds n' := by
  rcases o.effect_ids w.core with hsame | ⟨hnext, hlt⟩
  · have hold {x : SockId} {a : ASocket} (hx : (o.effect w.core).sockets x = some a)
        (hk : a.kind = .jdwpTracker) :
        ∃ a₀, w.core.sockets x = some a₀ ∧ a₀.kind = .jdwpTracker ∧ a₀.id = a.id := by
      refine (Op.tracker_old hgr hg hx hk).resolve_right ?_
      rintro ⟨d, rfl, -⟩
      exact absurd hsame (by simp [Op.effect, Core.openStream])
    refine ⟨n, ⟨hsame.trans h.numbers.next, Nat.le_trans h.numbers.le (o.nextSock_le w.core)⟩,
      fun hx hk => ?_, fun hn x y a d hx hk hy hk' heq => ?_⟩
    · obtain ⟨a₀, hx₀, hk₀, hid⟩ := hold hx hk
      exact hid ▸ h.old hx₀ hk₀
    · obtain ⟨a₀, hx₀, hk₀, hid⟩ := hold hx hk
      obtain ⟨d₀, hy₀, hk₀', hid'⟩ := hold hy hk'
      exact h.apart hn hx₀ hk₀ hy₀ hk₀' (hid.trans (heq.trans hid'.symm))
  · have hold {x : SockId} {a : ASocket} (hx : (o.effect w.core).sockets x = some a)
        (hk : a.kind = .jdwpTracker) :
        (∃ a₀, w.core.sockets x = some a₀ ∧ a₀.kind = .jdwpTracker ∧ a₀.id = a.id) ∨
          x = w.core.nextSock ∧ a.id = w.core.localSocketNextId := by
      refine (Op.tracker_old hgr hg hx hk).imp_right ?_
      rintro ⟨d, -, hx', rfl⟩
      exact ⟨hx', rfl⟩
    refine ⟨n + 1, h.numbers.succ hnext hlt, fun hx hk => ?_,
      fun hn x y a d hx hk hy hk' heq => ?_⟩
    · rw [Served.firstIds_succ]
      rcases hold hx hk with ⟨a₀, hx₀, hk₀, hid⟩ | ⟨-, hid⟩
      · exact List.mem_append_left _ (hid ▸ h.old hx₀ hk₀)
      · rw [hid, h.numbers.next]
        exact List.mem_append_right _ (List.mem_singleton_self _)
    · have hnew := h.numbers.not_mem hn
      rcases hold hx hk with ⟨a₀, hx₀, hk₀, hid⟩ | ⟨hx', hid⟩ <;>
        rcases hold hy hk' with ⟨d₀, hy₀, hk₀', hid'⟩ | ⟨hy', hid'⟩
      · exact h.apart (Nat.lt_of_succ_lt hn) hx₀ hk₀ hy₀ hk₀' (hid.trans (heq.trans hid'.symm))
      · exact absurd (hid'.symm ▸ heq ▸ hid ▸ h.old hx₀ hk₀) hnew
      · exact absurd (hid ▸ heq ▸ hid' ▸ h.old hy₀ hk₀') hnew
      · exact hx'.trans hy'.symm

/-- Trackers have different ids until the counter wraps around. -/
theorem Reachable.trackerIds (hr : Reachable s) : ∃ n, s.core.TrackerIds n := by
  refine Trans.Runs.invariant (I := fun s => Reachable s ∧ ∃ n, s.core.TrackerIds n) hr
    ⟨.refl, 0, ⟨⟨by decide, Nat.zero_le _⟩, ?_, ?_⟩⟩ ?_ |>.2
  · intro x a hx
    cases hx
  · intro _ x y a d hx
    cases hx
  rintro s b s' ⟨hr, n, hn⟩ - hs
  refine ⟨Trans.Runs.tail hr trivial hs, ?_⟩
  have hops := step_ops hr.wf hr.lives.unregistered hs
  refine (hops.invariant (I := fun v => WF v ∧ ∃ n, v.core.TrackerIds n) ⟨hr.wf, n, hn⟩ ?_).2
  rintro v o ⟨hv, n, hn⟩ hgo -
  exact ⟨hv.op hgo, hn.op hv.graph hgo⟩

/-! ### What happens to a tracker -/

/-- The operations on a tracker. -/
theorem Op.at_tracker (hgr : Graph w.core) (hg : o.Guard w) (hx : w.core.sockets x = some a)
    (hk : a.kind = .jdwpTracker) (ho : o.sock = some x) :
    (∃ t m, o = .deliver t x m) ∨ (∃ t T p, o = .sendList x t T p) ∨
      (∃ d pass need, o = .flags x d pass need) ∨ ∃ d, o = .close d ∧ d.sock = x := by
  have hnot {d : ASocket} (hs : w.core.sockets x = some d) : d.kind.isLocal = false ∧
      d.kind ≠ .smartSocket ∧ d.kind ≠ .localSocket ∧ d.kind ≠ .localNotify := by
    obtain rfl : a = d := Option.some.inj (hx.symm.trans hs)
    simp [hk, SockKind.isLocal]
  cases o with (dsimp only [Op.sock] at ho; cases ho)
  | deliver t _ m => exact .inl ⟨t, m, rfl⟩
  | sendList _ t T p => exact .inr (.inl ⟨t, T, p, rfl⟩)
  | flags _ d pass need => exact .inr (.inr (.inl ⟨d, pass, need, rfl⟩))
  | close d => exact .inr (.inr (.inr ⟨d, rfl, rfl⟩))
  | collectFirst | collectMore => exact absurd hg.2.1 (hnot hg.1).2.1
  | choose => exact absurd hg.2 (hnot hg.1).2.1
  | rig s b ss b' =>
      obtain ⟨hs, hp, hb, hk', -⟩ := hg
      obtain ⟨b'', hb'', -, hf⟩ := hgr.peer hs hp
      obtain rfl : b' = b'' := Option.some.inj (hb.symm.trans hb'')
      obtain rfl : a = b := Option.some.inj (hx.symm.trans hs)
      rw [hk, hk'] at hf
      cases hf
  | readOff =>
      obtain ⟨b, hs, hk'⟩ := hg
      exact absurd hk' (hnot hs).2.2.2
  | ready =>
      obtain ⟨b, hs, hk', -⟩ := hg
      exact absurd hk' (hnot hs).2.2.1
  | wrteFail =>
      obtain ⟨b, hs, hk', -⟩ := hg
      simp [(hnot hs).1] at hk'
  | attach | wrteQueue | wrteBlock | wrteDone | drain | drainDestroy =>
      have hk' := hg.2.1
      simp [(hnot hg.1).1] at hk'
  | drainReady | readWrte => exact absurd hg.2.1 (hnot hg.1).2.2.1

/-- A tracker that is closed is gone. -/
theorem Op.tracker_closed {d : Close} (hgr : Graph w.core) (hg : (Op.close d).Guard w)
    (hk : d.self.kind = .jdwpTracker) :
    ((Op.close d).effect w.core).sockets d.sock = none := by
  have hf : d.fate = none := by
    cases hf : d.fate with
    | none => rfl
    | some a' =>
        have hl := (hgr.fate_isLocal hg.1 hg.2.1 hf).1
        rw [hk] at hl
        cases hl
  exact (if_pos rfl).trans hf

/-- A tracker with its stream. -/
def Core.Tracks (c : Core) (x : SockId) (r : UInt32 × TId × UInt32) : Prop :=
  (∃ a, c.sockets x = some a ∧ a.kind = .jdwpTracker) ∧ c.route x = some r

/-- A tracker keeps its stream as long as it lives. -/
theorem Ops.tracks {P : Work → Op → Prop} {r : UInt32 × TId × UInt32} (h : Ops P w w')
    (hw : WF w) (hx : w.core.Tracks x r) : w'.core.sockets x = none ∨ w'.core.Tracks x r := by
  have hlt : x < w.core.nextSock := by
    obtain ⟨⟨a, ha, -⟩, -⟩ := hx
    exact hw.graph.fresh ha
  refine (h.invariant (I := fun v => WF v ∧ x < v.core.nextSock ∧
    (v.core.sockets x = none ∨ v.core.Tracks x r)) ⟨hw, hlt, .inr hx⟩ ?_).2.2
  rintro v o ⟨hv, hlt, hx⟩ hg -
  refine ⟨hv.op hg, Nat.lt_of_lt_of_le hlt (o.nextSock_le v.core), ?_⟩
  rcases hx with hdead | ⟨⟨a, ha, hk⟩, hroute⟩
  · exact .inl ((o.untouched_dead hv.graph hg hdead fun _ => hlt).sock.trans hdead)
  have hr : v.core.route x = some (r.1, r.2.1, r.2.2) := hroute
  rcases Op.route_kept hv.graph hg hr with hroute' | ⟨d, q, b, rfl, rfl, -⟩
  · obtain ⟨a', -, -, ha', -⟩ := Core.route_eq_some.mp hroute'
    refine .inr ⟨⟨a', ha', ?_⟩, hroute'⟩
    cases o.evolves hv.graph hg ha ha' with
    | queue | flags => exact hk
    | choose t hs => cases hk.symm.trans hs
    | rig ss b t T p ho =>
        subst ho
        obtain ⟨-, hp, hss, hks, -⟩ := hg
        have hl := hv.graph.client_isLocal ha hp hss hks
        rw [hk] at hl
        cases hl
    | attach id t T m ho =>
        subst ho
        have hl := hg.2.1
        rw [hk] at hl
        cases hl
    | close d a' ho hd hself hf =>
        subst ho hd hself
        have hl := (hv.graph.fate_isLocal hg.1 hg.2.1 hf).1
        rw [hk] at hl
        cases hl
  · obtain rfl : d.self = a := Option.some.inj (hg.1.symm.trans ha)
    exact .inl (Op.tracker_closed hv.graph hg hk)

/-- A tracker was one before, if it was there. -/
theorem Ops.tracker_old {P : Work → Op → Prop} (h : Ops P w w') (hw : WF w)
    (hlt : x < w.core.nextSock) (hx : w'.core.sockets x = some a)
    (hk : a.kind = .jdwpTracker) :
    ∃ a₀, w.core.sockets x = some a₀ ∧ a₀.kind = .jdwpTracker := by
  refine (h.invariant (I := fun v => WF v ∧ x < v.core.nextSock ∧ ∀ d,
    v.core.sockets x = some d →
    d.kind = .jdwpTracker → ∃ a₀, w.core.sockets x = some a₀ ∧ a₀.kind = .jdwpTracker)
    ⟨hw, hlt, fun d hd hkd => ⟨d, hd, hkd⟩⟩ ?_).2.2 a hx hk
  rintro v o ⟨hv, hlt, hall⟩ hg -
  refine ⟨hv.op hg, Nat.lt_of_lt_of_le hlt (o.nextSock_le v.core), fun d hd hkd => ?_⟩
  rcases Op.tracker_old hv.graph hg hd hkd with ⟨a₀, ha₀, hk₀, -⟩ | ⟨d', -, rfl, -⟩
  · exact hall a₀ ha₀ hk₀
  · exact absurd hlt (Nat.lt_irrefl _)

/-- **The tracker `x` is left as it is, or closed**, and nothing was sent for it. -/
def Core.Spares (c c' : Core) (x : SockId) (a : ASocket) : Prop :=
  (c'.sockets x = none ∨ c'.sockets x = some a) ∧ ∃ l, c'.about x = l ++ c.about x ∧
    ∀ m : AMessage, m.command = A_WRTE → ∀ t, .sent t (some x) m ∉ l

/-- A memory in which nothing was done to it. -/
theorem Core.Spares.same (hx : c'.sockets x = some a) (h : c'.about x = c.about x) :
    c.Spares c' x a :=
  ⟨.inr hx, [], h, by simp⟩

/-- Operations that do not write for it spare a tracker. -/
theorem Ops.tracker_spared {P : Work → Op → Prop} (h : Ops P w w') (hw : WF w)
    (hx : w.core.sockets x = some a) (hk : a.kind = .jdwpTracker)
    (hP : ∀ v o, P v o → (∀ t T p, o ≠ .sendList x t T p) ∧
      ∀ d pass need, o ≠ .flags x d pass need) : w.core.Spares w'.core x a := by
  refine (h.invariant (I := fun v => WF v ∧ x < v.core.nextSock ∧ w.core.Spares v.core x a)
    ⟨hw, hw.graph.fresh hx, .same hx rfl⟩ ?_).2.2
  rintro v o ⟨hv, hlt, hsock, l, hl, hnone⟩ hg hmay
  refine ⟨hv.op hg, Nat.lt_of_lt_of_le hlt (o.nextSock_le v.core), ?_⟩
  have hsame (hu : v.core.Untouched (o.effect v.core) x) :
    w.core.Spares (o.effect v.core) x a :=
    ⟨by rw [hu.sock]; exact hsock, l, hu.about.trans hl, hnone⟩
  rcases hsock with hdead | ha
  · exact hsame (o.untouched_dead hv.graph hg hdead fun _ => hlt)
  by_cases ho : o.sock = some x
  · obtain ⟨hno, hno'⟩ := hP v o hmay
    rcases o.at_tracker hv.graph hg ha hk ho with
      ⟨t, m, rfl⟩ | ⟨t, T, p, rfl⟩ | ⟨d, pass, need, rfl⟩ | ⟨d, rfl, rfl⟩
    · refine ⟨.inr ha, .delivered t x m :: l, ?_, fun m' hm' t' hmem => ?_⟩
      · rw [Op.apply_core, Op.about_effect, hl]
        simp [Op.notes, Obs.subject]
      · exact hnone m' hm' t' ((List.mem_cons.mp hmem).resolve_left (by simp))
    · exact absurd rfl (hno t T p)
    · exact absurd rfl (hno' d pass need)
    · obtain rfl : d.self = a := Option.some.inj (hg.1.symm.trans ha)
      refine ⟨.inl (Op.tracker_closed hv.graph hg hk), l, ?_, hnone⟩
      have hq : d.notes.filter (fun n => n.subject = some d.sock) = [] :=
        List.filter_eq_nil_iff.mpr fun n hn => by simp [hg.2.2.2.1 n hn]
      rw [Op.apply_core, Op.about_effect, hl, Op.notes, hq, List.nil_append]
  · exact hsame (o.untouched_end hv.graph hg ha (by simp [hk, SockKind.isEnd]) ho)

/-! ### Steps -/

/-- The packet without its address. -/
def APacket.unaddressed (p : APacket) : APacket := { p with addr := 0 }

/-- **What a step sends for `x` on `t`**: the `WRTE`s that it puts into the pipe to the input
thread, and notes as sent for `x`. -/
def System.news (s : System) (t : TId) (x : SockId) (b : Action) (s' : System) :
    List APacket :=
  (s.puts t b s').filter fun p => p.msg.command = A_WRTE ∧ .sent t (some x) p.msg ∈
    (s'.core.about x).take ((s'.core.about x).length - (s.core.about x).length)

/-- **The lists that a step has for the tracker `x`**: the one there is when `x` is created,
and the new one when a process comes or goes. -/
def System.lists (s : System) (x : SockId) (b : Action) (s' : System) : List (List Int) :=
  if x < s.core.nextSock then
    if s.task b = .jdwp ∧ (s.core.loop.fdes .jdwp).events.read then [s'.core.jdwpList] else []
  else if x < s'.core.nextSock then [s.core.jdwpList] else []

/-- What `jdwp_process_list_updated` sends to a tracker. -/
def toldLater (id rid : UInt32) (pids : List Int) : APacket :=
  uploadPacket 0 (jdwpProcessListMsg pids 1024) id rid

/-- What is noted for `x` in a step is what its end adds. -/
theorem System.news_eq {l : List Obs} (h : s'.core.about x = l ++ s.core.about x) :
    s.news t x b s' = (s.puts t b s').filter fun p => p.msg.command = A_WRTE ∧
      .sent t (some x) p.msg ∈ l := by
  rw [System.news, h, List.length_append, Nat.add_sub_cancel, List.take_left]

theorem System.news_nil {l : List Obs} (h : s'.core.about x = l ++ s.core.about x)
    (hno : ∀ m : AMessage, m.command = A_WRTE → ∀ t, .sent t (some x) m ∉ l) :
    s.news t x b s' = [] := by
  rw [System.news_eq h]
  exact List.filter_eq_nil_iff.mpr fun p _ => by simpa using fun hc => hno p.msg hc t

/-- Only the record of the JDWP control socket has this callback. -/
theorem System.pending_of_jdwp (h : s.task (.dispatch io) = .jdwp) :
    ∃ rest, s.core.loop.pending = .jdwp :: rest := by
  have htaskOf (c : Core) (k : FdeId) (ev : Events) : c.taskOf k ev ≠ .jdwp := by
    unfold Core.taskOf
    split
    · split
      · simp
      · split <;> simp
    · next t =>
      split
      · cases c.received t <;> simp
      · simp
    · simp
  rw [System.task] at h
  split at h
  · cases h
  · next k rest hp =>
    cases k with
    | jdwp => exact ⟨rest, hp⟩
    | sock y => exact absurd h (htaskOf s.core (.sock y) _)
    | transport t => exact absurd h (htaskOf s.core (.transport t) _)
    | ssListener => cases h
    | registration =>
        simp only [System.callbackTask] at h
        split at h
        · split at h
          · cases h
          · split at h <;> cases h
        · cases h
    | subproc =>
        simp only [System.callbackTask, Core.forcedTask] at h
        split at h
        · split at h
          · split at h
            · exact absurd h (htaskOf s.core _ _)
            · cases h
          · cases h
        · cases h

/-- **A process comes or goes**: every tracker is told. -/
theorem step_jdwp (hr : Reachable s) (hs : step s (.dispatch io) = .ok s')
    (hk : s.task (.dispatch io) = .jdwp) : ∃ c, c.sockets = s.core.sockets ∧
      c.log = s.core.log ∧
      c.transports = s.core.transports ∧
      if (s.core.loop.fdes .jdwp).events.read then
        Tells (jdwpProcessListMsg s'.core.jdwpList 1024) s.core.jdwpTrackersList c s'.core
      else s'.core = c := by
  obtain ⟨rest, hp⟩ := System.pending_of_jdwp hk
  have hstep : step s (.dispatch io) =
    System.run (jdwpProcessEvent (s.core.loop.fdes .jdwp).events)
      { s with core := s.core.taken io .jdwp rest } := by
    rw [step, Loop.fdeventPlistDequeue, hp]
    rfl
  rw [hstep] at hs
  by_cases hev : (s.core.loop.fdes .jdwp).events.read = true
  · let c : Core := { s.core.taken io .jdwp rest with jdwpList := io.pids }
    have hwp : wp (jdwpProcessEvent (s.core.loop.fdes .jdwp).events)
        (fun _ => Tells (jdwpProcessListMsg io.pids 1024) s.core.jdwpTrackersList c)
        (fun _ => True) (s.core.taken io .jdwp rest) := by
      rw [jdwpProcessEvent, if_pos hev, wp_bind, wp_modify, jdwpProcessListUpdated, wp_bind,
        wp_get]
      refine wp_jdwpUpdateFrom_tells fun y hy => ?_
      cases hdead : s.core.sockets y with
      | none => exact .inl hdead
      | some a =>
          have hj := (hr.wf.graph.mem_trackers hdead).mp hy
          obtain ⟨q, d, hpq, hd, hkd⟩ := hr.wf.graph.jdwp_peer hdead (by rw [hj]; rfl)
          obtain ⟨t, T, hrem⟩ := hr.wf.graph.remoteOf hdead hpq hd hkd
          exact .inr ⟨q, d, a, t, T,
            ⟨hrem.sock, hrem.kind, hrem.peer, hrem.near, hrem.transport, hrem.live⟩, hpq⟩
    have htells := System.run_does hwp hs
    refine ⟨c, rfl, rfl, rfl, ?_⟩
    rw [if_pos hev, htells.jdwpList_eq]
    exact htells
  · refine ⟨s.core.taken io .jdwp rest, rfl, rfl, rfl, ?_⟩
    rw [if_neg hev]
    rw [System.run, jdwpProcessEvent, if_neg hev] at hs
    obtain rfl := Except.ok.inj hs
    rfl

/-- The transport of a packet that is handled is there. -/
theorem System.transport_of_packet (h : s.task (.dispatch io) = .packet t p) :
    ∃ T, s.core.transports t = some T := by
  obtain ⟨c, c₁, T, rest, hreads, hT, -⟩ := System.exists_handles h
  exact ⟨T, hreads.transports_eq ▸ hT⟩

/-- `handle_packet` finds the processes that the main loop knows. -/
theorem System.Handles.jdwpList_eq (h : s.Handles io t p c) :
    c.jdwpList = s.core.jdwpList := by
  obtain ⟨c₁, T, rest, hr, -, -, -, rfl⟩ := h
  cases hr <;> rfl

/-- A tracker that is acknowledged has nothing more to send. -/
theorem step_okay_spares (hr : Reachable s) (hs : step s (.dispatch io) = .ok s')
    (hk : s.task (.dispatch io) = .packet t p) (hc : p.msg.command = A_OKAY)
    (hf : s.core.find p.msg.arg1 = some x) (hx : s.core.sockets x = some a)
    (hkind : a.kind = .jdwpTracker) (hn : a.needUpdate = false) :
    s.core.Spares s'.core x a := by
  obtain ⟨c, hh⟩ := System.exists_handles hk
  have hw := hh.wf hr.wf
  have hcx : c.sockets x = some a := hh.sockets_eq ▸ hx
  obtain ⟨q, d, hp, -⟩ := hw.graph.jdwp_peer hcx (by rw [hkind]; rfl)
  have hfc : c.find p.msg.arg1 = some x := (congrFun hh.find_eq _).trans hf
  have hrun := hh.step_eq.symm.trans hs
  have hwp : wp (handlePacket p t) (fun _ c' => c'.sockets = c.sockets ∧
      (c'.log = c.log ∨ c'.log = .delivered t x p.msg :: c.log)) (fun _ => True) c := by
    rw [handlePacket, wp_bind, wp_getTransport]
    refine ⟨fun T _ => ?_, fun _ => trivial⟩
    rw [if_neg (by rw [hc]; decide), if_neg (by rw [hc]; decide), handleCommand,
      if_neg (by rw [hc]; decide), if_neg (by rw [hc]; decide), if_neg (by rw [hc]; decide),
      if_pos hc, wp_bind]
    split
    · rw [handleOkay, wp_bind, wp_findLocalSocket hw.graph, hfc]
      dsimp only
      rw [wp_bind, wp_note, wp_bind]
      refine (wp_getSock_of (by exact hcx)).mpr ?_
      rw [if_neg (by rw [hp]; simp), callReady, wp_bind]
      refine (wp_getSock_of (by exact hcx)).mpr ?_
      rw [hkind]
      dsimp only
      rw [jdwpTrackerReady, wp_bind]
      refine (wp_getSock_of (by exact hcx)).mpr ?_
      rw [hn, if_neg (by decide), wp_pure]
      refine wp_mono wp_putApacket_freed (fun _ c' hc' => ?_) fun _ _ => trivial
      subst hc'
      exact ⟨rfl, .inr rfl⟩
    · rw [wp_pure]
      refine wp_mono wp_putApacket_freed (fun _ c' hc' => ?_) fun _ _ => trivial
      subst hc'
      exact ⟨rfl, .inl rfl⟩
  obtain ⟨hsock, hnew⟩ := System.run_does hwp hrun
  refine ⟨.inr ((congrFun hsock x).trans hcx), ?_⟩
  rcases hnew with hnew | hnew
  · exact ⟨[], by simp [Core.about, hnew, hh.log_eq], by simp⟩
  · exact ⟨[.delivered t x p.msg], by simp [Core.about, hnew, hh.log_eq, Obs.subject], by simp⟩

/-- An `OPEN` concerns none of the sockets that are there. -/
theorem Core.Answers.spares (h : c.Answers t rid c') (hx : x < c.nextSock) :
    c'.sockets x = c.sockets x ∧ c'.about x = c.about x := by
  have hne : x ≠ c.nextSock := Nat.ne_of_lt hx
  have hne' : x ≠ c.nextSock + 1 := Nat.ne_of_lt (Nat.lt_succ_of_lt hx)
  cases h with
  | refused hT =>
      exact ⟨rfl, by simp [Core.about, Core.sendNew, Core.newPkt, Core.push, Core.putTransport,
        Core.note, Obs.subject]⟩
  | opened d =>
      exact ⟨by simp [Core.openStream, hne, hne'],
        by simp [Core.about, Core.openStream, Obs.subject, Ne.symm hne]⟩
  | listed d =>
      exact ⟨by simp [Core.tell, Core.newPkt, Core.push, Core.putTransport, Core.note,
        Core.putSock, Core.openStream, hne, hne'],
      by simp [Core.about, Core.tell, Core.newPkt, Core.push, Core.putTransport, Core.note,
        Core.putSock, Core.openStream, Obs.subject, Ne.symm hne]⟩

/-- A step that handles an `OPEN` spares the trackers that are there. -/
theorem step_open_spares (hr : Reachable s) (hs : step s (.dispatch io) = .ok s')
    (hk : s.task (.dispatch io) = .packet t p) (hc : p.msg.command = A_OPEN)
    (hx : s.core.sockets x = some a) : s.core.Spares s'.core x a := by
  obtain ⟨T, hT⟩ := System.transport_of_packet hk
  obtain ⟨c, hh, hopen⟩ := step_open hr hs hk hc hT
  have hcx : c.sockets x = some a := hh.sockets_eq ▸ hx
  have habout : c.about x = s.core.about x := by rw [Core.about, Core.about, hh.log_eq]
  split at hopen
  · obtain ⟨c', hans, hcore⟩ := hopen
    obtain ⟨hsock, hsame⟩ := hans.spares (hh.ids_eq.2 ▸ hr.wf.graph.fresh hx)
    rw [hcore]
    exact .same (hsock.trans hcx) (hsame.trans habout)
  · rw [hopen]
    exact .same hcx habout

/-- **A tracker is sent the new list** when a process comes or goes. -/
theorem step_jdwp_news (hr : Reachable s) (hs : step s (.dispatch io) = .ok s')
    (hk : s.task (.dispatch io) = .jdwp) (hev : (s.core.loop.fdes .jdwp).events.read = true)
    (hsmall : s.core.nextSock < 2 ^ 32) (hx : s.core.sockets x = some a)
    (hkind : a.kind = .jdwpTracker) (hroute : s.core.route x = some (id, t, rid)) :
    s'.core.sockets x = some a ∧ (s.news t x (.dispatch io) s').map (·.unaddressed) =
      [toldLater id rid s'.core.jdwpList] := by
  obtain ⟨c, hsock, hlog, htr, htells⟩ := step_jdwp hr hs hk
  rw [if_pos hev] at htells
  have hcroute : c.route = s.core.route := by
    funext y
    rw [Core.route, Core.route, hsock]
  have habout : c.about x = s.core.about x := by rw [Core.about, Core.about, hlog]
  obtain ⟨a₁, q, d, ha₁, -, hq, hkd, hdt, hid, -⟩ := Core.route_eq_some.mp hroute
  obtain rfl := Option.some.inj (hx.symm.trans ha₁)
  obtain ⟨t₁, T, ht₁, hT, -⟩ := hr.wf.graph.remote hq hkd
  obtain rfl : t = t₁ := Option.some.inj (hdt.symm.trans ht₁)
  obtain ⟨n, hids⟩ := hr.trackerIds
  have hunique (y : SockId) (hy : y ∈ s.core.jdwpTrackersList) (r : UInt32 × TId × UInt32)
      (hyr : c.route y = some r) (hr₁ : r.1 = id) : y = x := by
    rw [hcroute] at hyr
    obtain ⟨d, -, -, hyd, -, -, -, -, hid', -⟩ := Core.route_eq_some.mp hyr
    exact hids.apart (Nat.lt_of_le_of_lt hids.numbers.le hsmall) hyd
      ((hr.wf.graph.mem_trackers hyd).mp hy) hx hkind (hid'.trans (hr₁.trans hid.symm))
  obtain ⟨T', new, hT', hnew, hshape, hin, -⟩ := htells.sends hr.wf.graph.trackers.1
    (htr ▸ hT) (hcroute ▸ hroute) hunique
  obtain ⟨hnoted, n, hone⟩ := hin ((hr.wf.graph.mem_trackers hx).mpr hkind)
  refine ⟨(congrFun htells.sockets_eq x).trans (hsock ▸ hx), ?_⟩
  let m : AMessage := (uploadPacket 0 (jdwpProcessListMsg s'.core.jdwpList 1024) id rid).msg
  let noted (p : APacket) : Prop := p.msg.command = A_WRTE ∧
    .sent t (some x) p.msg ∈ [Obs.sent t (some x) m]
  -- the packet with the id of `x` is the one that was noted
  have hfilter : (new.filter fun p => noted p) =
      (new.filter (·.msg.arg0 = id)).filter fun p => noted p := by
    rw [List.filter_filter]
    refine List.filter_congr fun p hp => ?_
    obtain ⟨n, id', rid', rfl⟩ := hshape p hp
    simp [noted, m, wrtePacket, APacket.finish]
    tauto
  rw [System.news_eq (l := [_]) (hnoted.trans (congrArg _ habout)), step_read hT hT' hnew,
    hfilter, hone]
  simp [noted, m, wrtePacket, APacket.finish, APacket.unaddressed, toldLater]

/-- **What a step does for a tracker** that lives through it: it sends the new list, if there
is one, and nothing else. -/
theorem step_tracker (hr : Reachable s) (hs : step s b = .ok s')
    (hsmall : s.core.nextSock < 2 ^ 32) (hx : s.core.sockets x = some a)
    (hk : a.kind = .jdwpTracker) (hn : a.needUpdate = false)
    (hroute : s.core.route x = some (id, t, rid)) (hlive : s'.core.sockets x ≠ none) :
    s'.core.sockets x = some a ∧
      (s.news t x b s').map (·.unaddressed) = (s.lists x b s').map (toldLater id rid) := by
  have hlt := hr.wf.graph.fresh hx
  by_cases hjdwp : s.task b = .jdwp ∧ (s.core.loop.fdes .jdwp).events.read = true
  · obtain ⟨hkj, hev⟩ := hjdwp
    obtain ⟨io, rfl⟩ := s.dispatch_of_task (a := b) (by rw [hkj]; trivial)
    rw [System.lists, if_pos hlt, if_pos ⟨hkj, hev⟩]
    exact step_jdwp_news hr hs hkj hev hsmall hx hk hroute
  have hspares : s.core.Spares s'.core x a := by
    by_cases hserves : (s.task b).Serves (s.start b) x
    · rcases hserves with hkj | ⟨t', p, hkp, hc | ⟨hc, hf⟩⟩
      · obtain ⟨io, rfl⟩ := s.dispatch_of_task (a := b) (by rw [hkj]; trivial)
        obtain ⟨c, hsock, hlog, -, hsame⟩ := step_jdwp hr hs hkj
        rw [if_neg fun hev => hjdwp ⟨hkj, hev⟩] at hsame
        rw [hsame]
        exact .same (hsock ▸ hx) (by rw [Core.about, Core.about, hlog])
      · obtain ⟨io, rfl⟩ := s.dispatch_of_task (a := b) (by rw [hkp]; trivial)
        exact step_open_spares hr hs hkp hc hx
      · obtain ⟨io, rfl⟩ := s.dispatch_of_task (a := b) (by rw [hkp]; trivial)
        exact step_okay_spares hr hs hkp hc hf hx hk hn
    · refine (step_ops hr.wf hr.lives.unregistered hs).tracker_spared hr.wf hx hk
        fun v o hm => ⟨?_, ?_⟩
      · rintro t T p rfl
        exact hserves hm.1
      · rintro d pass need rfl
        exact hserves hm
  obtain ⟨hsock, l, hl, hno⟩ := hspares
  refine ⟨hsock.resolve_left hlive, ?_⟩
  rw [System.news_nil hl hno, System.lists, if_pos hlt, if_neg hjdwp]
  rfl

/-- A tracker that was not there before is made for an `OPEN`. -/
theorem step_tracker_open (hr : Reachable s) (hs : step s b = .ok s')
    (hx : s'.core.sockets x = some a) (hk : a.kind = .jdwpTracker)
    (hnew : s.core.nextSock ≤ x) :
    ∃ t p, s.task b = .packet t p ∧ p.msg.command = A_OPEN := by
  have hops := step_ops hr.wf hr.lives.unregistered hs
  have hall := (hops.invariant (I := fun v => WF v ∧ ∀ y d, v.core.sockets y = some d →
    d.kind = .jdwpTracker → y < s.core.nextSock ∨ ∃ t p, s.task b = .packet t p ∧
      p.msg.command = A_OPEN) ⟨hr.wf, fun y d hy _ => .inl (hr.wf.graph.fresh hy)⟩ ?_).2
  · exact (hall x a hx hk).resolve_left (Nat.not_lt.mpr hnew)
  rintro v o ⟨hv, hall⟩ hgo hm
  refine ⟨hv.op hgo, fun y d hy hd => ?_⟩
  rcases Op.tracker_old hv.graph hgo hy hd with ⟨d₀, hy₀, hk₀, -⟩ | ⟨d', rfl, -⟩
  · exact hall y d₀ hy₀ hk₀
  · obtain ⟨p, hp, hc⟩ := hm
    exact .inr ⟨d'.t, p, hp, hc⟩

/-- What becomes of a JDWP socket that has sent its list. -/
theorem ASocket.listed_kind (a : ASocket) : a.listed.kind = a.kind ∧ a.listed.id = a.id ∧
    a.listed.peer = a.peer ∧ (a.kind = .jdwpTracker → a.listed.needUpdate = false) := by
  rw [ASocket.listed]
  split
  · exact ⟨rfl, rfl, rfl, fun _ => rfl⟩
  · next hk => exact ⟨rfl, rfl, rfl, fun h => absurd h hk⟩

/-- A socket that is new when a stream is opened is one of its ends. -/
theorem Core.openStream_new {d : Open} (hdead : c.sockets x = none)
    (hx : (c.openStream d).sockets x = some a) :
    x = c.nextSock ∧ a = d.near c ∨ a.kind = .remoteSocket := by
  by_cases hxn : x = c.nextSock
  · subst hxn
    exact .inl ⟨rfl, Option.some.inj (hx.symm.trans (c.openStream_near d))⟩
  by_cases hxn' : x = c.nextSock + 1
  · subst hxn'
    obtain rfl := Option.some.inj (hx.symm.trans (c.openStream_far d))
    exact .inr rfl
  · simp only [Core.openStream, if_neg hxn, if_neg hxn'] at hx
    cases hdead.symm.trans hx

/-- A new tracker has sent its list. -/
theorem Core.Answers.new_tracker (h : c.Answers t rid c') (hdead : c.sockets x = none)
    (hx : c'.sockets x = some a) (hk : a.kind = .jdwpTracker) :
    ∃ d : Open, (d.near c).kind = .jdwpTracker ∧ d.t = t ∧ d.remote = rid ∧
      c.transports t = some d.T ∧ x = c.nextSock ∧ a = (d.near c).listed ∧
      c' = ((c.openStream d).tell c.nextSock t (d.link c) c.localSocketNextId rid
        ((d.near c).list c.jdwpList)).putSock c.nextSock (some (d.near c).listed) := by
  cases h with
  | refused _ => cases hdead.symm.trans hx
  | opened d hd =>
      rcases Core.openStream_new hdead hx with ⟨-, rfl⟩ | hr
      · cases hk.symm.trans hd
      · cases hk.symm.trans hr
  | listed d hj ht hrid hT =>
      by_cases hxn : x = c.nextSock
      · subst hxn
        have hself : Function.update (c.openStream d).sockets c.nextSock
          (some (d.near c).listed)
            c.nextSock = some a := hx
        rw [Function.update_self] at hself
        obtain rfl := Option.some.inj hself
        exact ⟨d, (d.near c).listed_kind.1.symm.trans hk, ht, hrid, hT, rfl, rfl, rfl⟩
      · rcases Core.openStream_new hdead ((Function.update_of_ne hxn ..).symm.trans hx) with
          ⟨hxn', -⟩ | hr
        · exact absurd hxn' hxn
        · cases hk.symm.trans hr

/-- What a tracker is told first. -/
def toldFirst (id rid : UInt32) (pids : List Int) : APacket :=
  uploadPacket 0 (jdwpProcessListMsg pids MAX_PAYLOAD) id rid

/-- **A new tracker is told the list there is.** -/
theorem step_new_tracker (hr : Reachable s) (hs : step s b = .ok s')
    (hx : s'.core.sockets x = some a) (hk : a.kind = .jdwpTracker) (hnew : s.core.nextSock ≤ x)
    (hroute : s'.core.route x = some (id, t, rid)) :
    a.needUpdate = false ∧
      (s.news t x b s').map (·.unaddressed) = (s.lists x b s').map (toldFirst id rid) := by
  obtain ⟨t', p, hkp, hc⟩ := step_tracker_open hr hs hx hk hnew
  obtain ⟨io, rfl⟩ := s.dispatch_of_task (a := b) (by rw [hkp]; trivial)
  obtain ⟨T, hT⟩ := System.transport_of_packet hkp
  obtain ⟨c, hh, hopen⟩ := step_open hr hs hkp hc hT
  obtain ⟨rest, hcT, -⟩ := hh.transport hT
  have hdead : c.sockets x = none := by
    cases hcx : c.sockets x with
    | none => rfl
    | some d =>
        rw [hh.sockets_eq] at hcx
        exact absurd (hr.wf.graph.fresh hcx) (Nat.not_lt.mpr hnew)
  split at hopen
  swap
  · rw [hopen] at hx
    cases hdead.symm.trans hx
  obtain ⟨c', hans, hcore⟩ := hopen
  rw [hcore] at hx hroute
  obtain ⟨d, htracker, rfl, hrid, hdT, rfl, rfl, rfl⟩ := hans.new_tracker hdead hx hk
  obtain ⟨-, hlid, hlpeer, hneed⟩ := (d.near c).listed_kind
  refine ⟨hneed htracker, ?_⟩
  have hfar := (Function.update_of_ne (Nat.succ_ne_self c.nextSock) (some (d.near c).listed)
    (c.openStream d).sockets).trans (c.openStream_far d)
  have hroute' := hroute.symm.trans (Core.route_eq_some.mpr
    ⟨_, _, _, hx, hlpeer, hfar, rfl, rfl, hlid, hrid⟩)
  obtain ⟨rfl, rfl, rfl⟩ : id = c.localSocketNextId ∧ t = d.t ∧ rid = p.msg.arg0 := by
    simpa [Open.near] using hroute'
  have hio : d.T.mainToIo = T.mainToIo := by
    simpa using congrArg (Option.map ATransport.mainToIo) (hdT.symm.trans hcT)
  let told := uploadPacket (c.openStream d).nextPkt ((d.near c).list c.jdwpList)
    c.localSocketNextId p.msg.arg0
  have hT' : s'.core.transports d.t = some { d.link c with
      mainToIo := (d.link c).mainToIo ++ [told] } :=
    (congrFun (congrArg Core.transports hcore) d.t).trans (Function.update_self ..)
  have hputs : s.puts d.t (.dispatch io) s' =
      [ctlPacket c.nextPkt A_OKAY c.localSocketNextId d.remote, told] := by
    refine step_read hT hT' ?_
    dsimp only [Open.link]
    rw [hio, List.append_assoc]
    rfl
  have habout : s'.core.about c.nextSock = [.sent d.t (some c.nextSock) told.msg,
      .opened c.nextSock, .sent d.t (some c.nextSock)
        (ctlPacket c.nextPkt A_OKAY c.localSocketNextId d.remote).msg] ++
      s.core.about c.nextSock := by
    rw [Core.about, Core.about, ← hh.log_eq, hcore]
    simp [Core.tell, Core.newPkt, Core.push, Core.putTransport, Core.note, Core.putSock,
      Core.freePkts, Core.openStream, Obs.subject, told]
  have hborn : c.nextSock < s'.core.nextSock := by
    rw [hcore]
    exact Nat.lt_add_of_pos_right (by decide)
  rw [System.news_eq habout, hputs, System.lists, if_neg (Nat.not_lt.mpr hnew), if_pos hborn]
  simp [told, ctlPacket, wrtePacket, APacket.finish, APacket.unaddressed, toldFirst,
    ASocket.list, htracker, hh.jdwpList_eq, A_OKAY, A_WRTE]

/-! ### Recorded runs -/

/-- The packets that tell a tracker of these lists, without their addresses. -/
def told (id rid : UInt32) : List (List Int) → List APacket
  | [] => []
  | pids :: later => toldFirst id rid pids :: later.map (toldLater id rid)

theorem told_append {lists : List (List Int)} (h : lists ≠ []) (new : List (List Int)) :
    told id rid (lists ++ new) = told id rid lists ++ new.map (toldLater id rid) := by
  cases lists with
  | nil => exact absurd rfl h
  | cons pids later => simp [told]

/-- The daemon, with the lists of processes for a tracker and what was sent for it. -/
structure Followed where
  system : System
  lists : List (List Int)
  news : List APacket

namespace Followed

variable {f f' : Followed}

/-- The daemon when `fdevent_loop` starts. -/
def init : Followed := ⟨System.init, [], []⟩

/-- A step of the daemon, recorded. -/
def step (t : TId) (x : SockId) (f : Followed) (b : Action) : Except Stop Followed :=
  match Adbd.step f.system b with
  | .ok s' =>
      .ok
        { system := s'
          lists := f.lists ++ f.system.lists x b s'
          news := f.news ++ f.system.news t x b s' }
  | .error e => .error e

theorem step_ok (h : step t x f b = .ok f') : Adbd.step f.system b = .ok f'.system ∧
    f'.lists = f.lists ++ f.system.lists x b f'.system ∧
      f'.news = f.news ++ f.system.news t x b f'.system := by
  rw [step] at h
  split at h
  · next s' hs =>
    obtain rfl := Except.ok.inj h
    exact ⟨hs, rfl, rfl⟩
  · cases h

/-- What holds of the lists and the packets of a run. -/
structure Inv (f : Followed) (t : TId) (x : SockId) : Prop where
  reachable : Reachable f.system
  unborn : f.system.core.nextSock ≤ x → f.lists = [] ∧ f.news = []
  told : f.system.core.nextSock < 2 ^ 32 → ∀ {a id rid}, f.system.core.sockets x = some a →
    a.kind = .jdwpTracker → f.system.core.route x = some (id, t, rid) →
    a.needUpdate = false ∧ f.lists ≠ [] ∧
      f.news.map (·.unaddressed) = Adbd.told id rid f.lists

theorem Inv.init : init.Inv t x where
  reachable := .refl
  unborn _ := ⟨rfl, rfl⟩
  told _ a id rid hx := by cases hx

/-- Nothing is sent for a socket that does not exist. -/
theorem news_unborn (hr : Reachable s) (hr' : Reachable s') (hx : s'.core.nextSock ≤ x)
    (hle : s.core.nextSock ≤ s'.core.nextSock) : s.news t x b s' = [] := by
  have habout : s'.core.about x = [] ++ s.core.about x := by
    rw [hr'.fresh x hx, hr.fresh x (Nat.le_trans hle hx)]
    rfl
  exact System.news_nil habout (by simp)

theorem Inv.step (h : f.Inv t x) (hstep : step t x f b = .ok f') : f'.Inv t x := by
  obtain ⟨hs, hlists, hnews⟩ := step_ok hstep
  have hr' : Reachable f'.system := Trans.Runs.tail h.reachable trivial hs
  have hops := step_ops h.reachable.wf h.reachable.lives.unregistered hs
  have hle : f.system.core.nextSock ≤ f'.system.core.nextSock := (hops.about_grows x).1
  refine ⟨hr', fun hx => ?_, fun hsmall a id rid hx hk hroute => ?_⟩
  · have hx₀ := Nat.le_trans hle hx
    obtain ⟨hl, hn⟩ := h.unborn hx₀
    rw [hlists, hnews, hl, hn, news_unborn h.reachable hr' hx hle, System.lists,
      if_neg (Nat.not_lt.mpr hx₀), if_neg (Nat.not_lt.mpr hx)]
    exact ⟨rfl, rfl⟩
  have hsmall₀ := Nat.lt_of_le_of_lt hle hsmall
  by_cases hnew : f.system.core.nextSock ≤ x
  · -- the tracker is opened in this step
    obtain ⟨hl, hn⟩ := h.unborn hnew
    obtain ⟨hneed, hnews'⟩ := step_new_tracker h.reachable hs hx hk hnew hroute
    have hborn : f.system.lists x b f'.system = [f.system.core.jdwpList] := by
      rw [System.lists, if_neg (Nat.not_lt.mpr hnew), if_pos (hr'.wf.graph.fresh hx)]
    rw [hlists, hnews, hl, hn, List.nil_append, List.nil_append, hnews', hborn]
    exact ⟨hneed, by simp, rfl⟩
  · -- it was there before, with the same stream
    have hlt := Nat.lt_of_not_le hnew
    obtain ⟨a₀, hx₀, hk₀⟩ := hops.tracker_old h.reachable.wf hlt hx hk
    obtain ⟨q, d, hp, hq, hkd⟩ := h.reachable.wf.graph.jdwp_peer hx₀ (by rw [hk₀]; rfl)
    obtain ⟨t₀, T₀, hrem⟩ := h.reachable.wf.graph.remoteOf hx₀ hp hq hkd
    have htracks := (hops.tracks h.reachable.wf ⟨⟨a₀, hx₀, hk₀⟩, hrem.route hp⟩).resolve_left
      (by rw [hx]; simp)
    obtain ⟨rfl, rfl, rfl⟩ : a₀.id = id ∧ t₀ = t ∧ d.id = rid := by
      simpa using htracks.2.symm.trans hroute
    obtain ⟨hneed, hne, htold⟩ := h.told hsmall₀ hx₀ hk₀ (hrem.route hp)
    obtain ⟨hsame, hnews'⟩ := step_tracker h.reachable hs hsmall₀ hx₀ hk₀ hneed (hrem.route hp)
      (by rw [hx]; simp)
    obtain rfl := Option.some.inj (hx.symm.trans hsame)
    rw [hlists, hnews, List.map_append, htold, hnews', told_append hne]
    exact ⟨hneed, by simp [hne], rfl⟩

end Followed

/-- **A tracker is told every list of processes**, in every interleaving of the threads and for
whatever the remote sends: the list there is when it is opened, and after that each new one, in
order. What the daemon puts into the pipe to the input thread for it is one `WRTE` for each,
under the ids of its stream, and nothing else; so the last one has the processes that the last
change left. This holds as long as fewer than 2³² sockets were ever created. -/
theorem tracker_told {f : Followed}
    (h : Trans.Runs (Followed.step t x) (fun _ _ => True) Followed.init f)
    (hsmall : f.system.core.nextSock < 2 ^ 32) (hx : f.system.core.sockets x = some a)
    (hk : a.kind = .jdwpTracker) (hroute : f.system.core.route x = some (id, t, rid)) :
    f.lists ≠ [] ∧ f.news.map (·.unaddressed) = told id rid f.lists := by
  have hinv : f.Inv t x := h.invariant (I := (Followed.Inv · t x)) Followed.Inv.init
    fun _ _ _ hf _ hs => hf.step hs
  exact (hinv.told hsmall hx hk hroute).2

/-- A tracker is opened, and two processes come. -/
theorem tracker_told_twice : ∃ f : Followed, f.lists = [[], [7], [7, 12]] ∧
    f.news.map (·.unaddressed) = told 1 5 [[], [7], [7, 12]] := by
  let as := connect 0 .usb ++ openTracker 0 5 ++ event .jdwp Events.onlyRead { pids := [7] } ++
    event .jdwp Events.onlyRead { pids := [7, 12] }
  let P (f : Followed) : Bool := f.lists = [[], [7], [7, 12]] ∧
    f.system.core.nextSock < 2 ^ 32 ∧
    (f.system.core.sockets 0).any (·.kind = .jdwpTracker) ∧
    f.system.core.route 0 = some (1, 0, 5)
  have hfollow : (Trans.follow (Followed.step 0 0) (fun _ _ => true) Followed.init as).any P =
      true := by
    decide +kernel
  obtain ⟨f, hf, hP⟩ := Trans.exists_runs as (fun _ _ _ => trivial) hfollow
  obtain ⟨hlists, hsmall, hany, hroute⟩ := of_decide_eq_true hP
  obtain ⟨a, hx, hk⟩ := (Option.any_eq_true _ _).mp hany
  have htold := (tracker_told hf hsmall hx (of_decide_eq_true hk) hroute).2
  rw [hlists] at htold
  exact ⟨f, hlists, htold⟩

end Adbd
