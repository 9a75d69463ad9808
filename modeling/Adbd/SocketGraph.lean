import Adbd.Ops

/-!
# The Socket Graph

Sockets point to their peers, the two lists of local sockets point to sockets, and the
transports point to the remote sockets that want to hear of their end. `Graph` says how
these pointers fit together, and every operation of the daemon keeps it.

The list of the JDWP trackers is the exception: `close_all_sockets` frees a tracker
without unlinking it, so `Graph` only says that a *live* socket is on the list exactly if
it is a tracker. That every socket on the list is live is a separate condition,
`TrackersLive`.

## Main definitions

* `ASocket.Shape`: what holds of the record of each kind of socket.
* `Graph`: the invariant of the pointers between sockets.
* `TrackersLive`: no freed socket is on the list of trackers.

## Main results

* `Graph.op`: every operation keeps the graph.
-/

namespace Adbd

/-- Which kinds of sockets can be the two ends of a stream. -/
def SockKind.Faces : SockKind → SockKind → Prop
  | .remoteSocket, k => k.isEnd = true
  | k, .remoteSocket => k.isEnd = true
  | .smartSocket, k => k = .localSocket
  | k, .smartSocket => k = .localSocket
  | _, _ => False

theorem SockKind.Faces.symm {k k' : SockKind} (h : k.Faces k') : k'.Faces k := by
  cases k <;> cases k' <;> simp_all [Faces, isEnd]

/-- What holds of the record of a socket by itself. -/
structure ASocket.Shape (a : ASocket) : Prop where
  /-- only a socket that waits for its `OKAY`, or is closing, has no peer -/
  peer : a.peer = none ↔ a.kind = .localNotify ∨ a.closing = true
  /-- a closing socket is a local one with unwritten data -/
  closing : a.closing = true → a.kind.isLocal = true ∧ a.queue ≠ []
  /-- only local sockets queue data; a smart socket collects one packet -/
  queue : a.kind.isLocal = true ∨ a.queue = [] ∨ (a.kind = .smartSocket ∧ a.queue.length ≤ 1)

/-- A local socket keeps its shape when its queue changes, if it does not lose the last
packet while it is closing. -/
theorem ASocket.Shape.setQueue {a : ASocket} (h : a.Shape) (hl : a.kind.isLocal = true)
    {q : List APacket} (hq : a.closing = true → q ≠ []) :
    ASocket.Shape { a with queue := q } :=
  ⟨h.peer, fun hc => ⟨hl, hq hc⟩, .inl hl⟩

/-- **The socket graph.** -/
structure Graph (c : Core) : Prop where
  fresh : ∀ {s a}, c.sockets s = some a → s < c.nextSock
  shape : ∀ {s a}, c.sockets s = some a → a.Shape
  peer : ∀ {s a q}, c.sockets s = some a → a.peer = some q →
    ∃ b, c.sockets q = some b ∧ b.peer = some s ∧ a.kind.Faces b.kind
  mem_list : ∀ s, s ∈ c.localSocketList ↔
    ∃ a, c.sockets s = some a ∧ a.kind.isEnd = true ∧ a.closing = false
  mem_closing : ∀ s, s ∈ c.localSocketClosingList ↔
    ∃ a, c.sockets s = some a ∧ a.closing = true
  nodup_list : c.localSocketList.Nodup
  nodup_closing : c.localSocketClosingList.Nodup
  remote : ∀ {s a}, c.sockets s = some a → a.kind = .remoteSocket →
    ∃ t T, a.transport = some t ∧ c.transports t = some T ∧ s ∈ T.disconnects
  disconnects : ∀ {t T}, c.transports t = some T → T.disconnects.Nodup ∧
    ∀ s ∈ T.disconnects, ∃ a, c.sockets s = some a ∧ a.kind = .remoteSocket ∧
      a.transport = some t
  mem_trackers : ∀ {s a}, c.sockets s = some a →
    (s ∈ c.jdwpTrackersList ↔ a.kind = .jdwpTracker)
  trackers : c.jdwpTrackersList.Nodup ∧ ∀ s ∈ c.jdwpTrackersList, s < c.nextSock

/-- No freed socket is on the list of trackers. -/
def TrackersLive (c : Core) : Prop := ∀ s ∈ c.jdwpTrackersList, c.sockets s ≠ none

namespace Graph

variable {c c' : Core} {s : SockId} {a : ASocket}

/-! ### Consequences -/

/-- A socket is not its own peer. -/
theorem peer_ne (h : Graph c) {q : SockId} (hs : c.sockets s = some a)
    (hp : a.peer = some q) : q ≠ s := by
  rintro rfl
  obtain ⟨b, hb, -, hf⟩ := h.peer hs hp
  obtain rfl : a = b := Option.some.inj (hs.symm.trans hb)
  revert hf
  cases a.kind <;> simp [SockKind.Faces, SockKind.isEnd]

/-- The next address is free. -/
theorem sockets_fresh (h : Graph c) {n : Nat} (hn : c.nextSock ≤ n) : c.sockets n = none := by
  cases hs : c.sockets n with
  | none => rfl
  | some a => exact absurd (h.fresh hs) (Nat.not_lt.mpr hn)

/-- A socket that is not closing and may be on the list is on the list. -/
theorem mem_list_of (h : Graph c) (hs : c.sockets s = some a) (hk : a.kind.isEnd = true)
    (hc : a.closing = false) : s ∈ c.localSocketList :=
  (h.mem_list s).mpr ⟨a, hs, hk, hc⟩

/-- Only a remote socket is on a transport's disconnect list, and only on its own. -/
theorem disconnect_iff (h : Graph c) {t : TId} {T : ATransport} (hT : c.transports t = some T)
    (hs : c.sockets s = some a) :
    s ∈ T.disconnects ↔ a.kind = .remoteSocket ∧ a.transport = some t := by
  constructor
  · intro hm
    obtain ⟨a', ha', hk, ht⟩ := (h.disconnects hT).2 s hm
    obtain rfl : a = a' := Option.some.inj (hs.symm.trans ha')
    exact ⟨hk, ht⟩
  · rintro ⟨hk, ht⟩
    obtain ⟨t', T', ht', hT', hm⟩ := h.remote hs hk
    obtain rfl : t = t' := Option.some.inj (ht.symm.trans ht')
    obtain rfl : T = T' := Option.some.inj (hT.symm.trans hT')
    exact hm

/-! ### Operations that do not touch the graph -/

/-- The graph depends only on the sockets, the lists and the disconnect lists. -/
theorem congr (h : Graph c) (hs : c'.sockets = c.sockets) (hn : c'.nextSock = c.nextSock)
    (hl : c'.localSocketList = c.localSocketList)
    (hc : c'.localSocketClosingList = c.localSocketClosingList)
    (hj : c'.jdwpTrackersList = c.jdwpTrackersList)
    (hT : ∀ t, (c'.transports t).map (·.disconnects) = (c.transports t).map (·.disconnects)) :
    Graph c' where
  fresh hx := by rw [hn]; rw [hs] at hx; exact h.fresh hx
  shape hx := by rw [hs] at hx; exact h.shape hx
  peer hx hp := by rw [hs] at hx ⊢; exact h.peer hx hp
  mem_list x := by rw [hl, hs]; exact h.mem_list x
  mem_closing x := by rw [hc, hs]; exact h.mem_closing x
  nodup_list := by rw [hl]; exact h.nodup_list
  nodup_closing := by rw [hc]; exact h.nodup_closing
  remote hx hk := by
    rw [hs] at hx
    obtain ⟨t, T, ht, hTt, hm⟩ := h.remote hx hk
    have hmap := hT t
    rw [hTt, Option.map_some, Option.map_eq_some_iff] at hmap
    obtain ⟨T', hT', hd⟩ := hmap
    exact ⟨t, T', ht, hT', by rw [hd]; exact hm⟩
  disconnects := by
    intro t T' hT'
    have hmap := hT t
    rw [hT', Option.map_some, eq_comm, Option.map_eq_some_iff] at hmap
    obtain ⟨T, hTt, hd⟩ := hmap
    rw [← hd, hs]
    exact h.disconnects hTt
  mem_trackers hx := by rw [hs] at hx; rw [hj]; exact h.mem_trackers hx
  trackers := by rw [hj, hn]; exact h.trackers

/-- Changing a transport, but not its disconnect list, keeps the graph. -/
theorem putTransport (h : Graph c) {t : TId} {T T' : ATransport} (hT : c.transports t = some T)
    (hd : T'.disconnects = T.disconnects) : Graph (c.putTransport t (some T')) := by
  refine h.congr rfl rfl rfl rfl rfl fun x => ?_
  by_cases hx : x = t
  · subst hx
    simp [Core.putTransport, hT, hd]
  · simp [Core.putTransport, hx]

/-- Changing the flags, the queue or (but for a remote socket) the transport of a socket
keeps the graph. -/
theorem putSock (h : Graph c) {a' : ASocket} (hs : c.sockets s = some a)
    (hk : a'.kind = a.kind) (hp : a'.peer = a.peer) (hc : a'.closing = a.closing)
    (ht : a.kind = .remoteSocket → a'.transport = a.transport) (hsh : a'.Shape) :
    Graph (c.putSock s (some a')) := by
  have hget (x : SockId) : (c.putSock s (some a')).sockets x =
      if x = s then some a' else c.sockets x := by
    simp [Core.putSock, Function.update_apply]
  refine ⟨?_, ?_, ?_, ?_, ?_, h.nodup_list, h.nodup_closing, ?_, ?_, ?_, h.trackers⟩
  · intro x b hx
    rw [hget] at hx
    split_ifs at hx with hxs
    · subst hxs; exact h.fresh hs
    · exact h.fresh hx
  · intro x b hx
    rw [hget] at hx
    split_ifs at hx with hxs
    · obtain rfl := Option.some.inj hx
      exact hsh
    · exact h.shape hx
  · intro x b q hx hq
    have hpeer : ∃ b', c.sockets q = some b' ∧ b'.peer = some x ∧ b.kind.Faces b'.kind := by
      rw [hget] at hx
      split_ifs at hx with hxs
      · obtain rfl := Option.some.inj hx
        subst hxs
        rw [hk]
        exact h.peer hs (hp ▸ hq)
      · exact h.peer hx hq
    obtain ⟨b', hb', hpb', hf⟩ := hpeer
    rw [hget]
    split_ifs with hqs
    · subst hqs
      obtain rfl : a = b' := Option.some.inj (hs.symm.trans hb')
      exact ⟨a', rfl, hp.trans hpb', hk ▸ hf⟩
    · exact ⟨b', hb', hpb', hf⟩
  · intro x
    rw [hget]
    refine (h.mem_list x).trans ?_
    split_ifs with hxs
    · subst hxs
      simp [hs, hk, hc]
    · rfl
  · intro x
    rw [hget]
    refine (h.mem_closing x).trans ?_
    split_ifs with hxs
    · subst hxs
      simp [hs, hc]
    · rfl
  · intro x b hx hkb
    rw [hget] at hx
    split_ifs at hx with hxs
    · obtain rfl := Option.some.inj hx
      subst hxs
      rw [ht (hk ▸ hkb)]
      exact h.remote hs (hk ▸ hkb)
    · exact h.remote hx hkb
  · intro t T hT
    refine ⟨(h.disconnects hT).1, fun x hx => ?_⟩
    obtain ⟨b, hb, hkb, htb⟩ := (h.disconnects hT).2 x hx
    rw [hget]
    split_ifs with hxs
    · subst hxs
      obtain rfl : a = b := Option.some.inj (hs.symm.trans hb)
      exact ⟨a', rfl, hk.trans hkb, (ht hkb).trans htb⟩
    · exact ⟨b, hb, hkb, htb⟩
  · intro x b hx
    rw [hget] at hx
    split_ifs at hx with hxs
    · obtain rfl := Option.some.inj hx
      subst hxs
      rw [hk]
      exact h.mem_trackers hs
    · exact h.mem_trackers hx

/-! ### Linking two sockets -/

/-- `Paired c s a b c'`: in `c'` the socket `s`, new or without a peer in `c`, and a new
socket at `r` are the two ends of a stream, with the records `a` and `b`. -/
structure Paired (c : Core) (s r : SockId) (a b : ASocket) (c' : Core) : Prop where
  sockets : c'.sockets = fun x => if x = s then some a else if x = r then some b
    else c.sockets x
  ne : s ≠ r
  next : c.nextSock ≤ r ∧ r < c'.nextSock ∧ s < c'.nextSock ∧ c.nextSock ≤ c'.nextSock
  old : (∃ a₀, c.sockets s = some a₀ ∧ a₀.peer = none ∧ a₀.kind.isLocal = true ∧
      a₀.closing = false) ∨ c.nextSock ≤ s
  shape : a.Shape ∧ b.Shape
  peer : a.peer = some r ∧ b.peer = some s ∧ a.kind.Faces b.kind
  ends : a.kind.isEnd = true ∧ b.kind.isEnd = false ∧ a.closing = false ∧ b.closing = false
  list : (∀ x, x ∈ c'.localSocketList ↔ x = s ∨ x ∈ c.localSocketList) ∧
    c'.localSocketList.Nodup
  closing : c'.localSocketClosingList = c.localSocketClosingList
  trackers : (∀ x, x ∈ c'.jdwpTrackersList ↔
      (x = s ∧ a.kind = .jdwpTracker) ∨ x ∈ c.jdwpTrackersList) ∧ c'.jdwpTrackersList.Nodup
  linked : b.kind = .remoteSocket → ∃ t T, b.transport = some t ∧ c.transports t = some T
  disconnects : ∀ t, (c'.transports t).map (·.disconnects) = (c.transports t).map fun T =>
    T.disconnects ++ if b.kind = .remoteSocket ∧ b.transport = some t then [r] else []

section Paired

variable {r : SockId} {b : ASocket}

/-- The three kinds of sockets of a memory in which a pair was linked. -/
theorem Paired.cases (p : Paired c s r a b c') {x : SockId} {d : ASocket}
    (hx : c'.sockets x = some d) :
    (x = s ∧ d = a) ∨ (x = r ∧ d = b) ∨ (x ≠ s ∧ x ≠ r ∧ c.sockets x = some d) := by
  rw [p.sockets] at hx
  by_cases hxs : x = s
  · exact .inl ⟨hxs, by simpa [hxs] using hx.symm⟩
  · by_cases hxr : x = r
    · exact .inr (.inl ⟨hxr, by simpa [hxr, p.ne.symm] using hx.symm⟩)
    · exact .inr (.inr ⟨hxs, hxr, by simpa [hxs, hxr] using hx⟩)

theorem Paired.at_s (p : Paired c s r a b c') : c'.sockets s = some a := by
  simp [p.sockets]

theorem Paired.at_r (p : Paired c s r a b c') : c'.sockets r = some b := by
  simp [p.sockets, p.ne.symm]

theorem Paired.at_other (p : Paired c s r a b c') {x : SockId} (hs : x ≠ s) (hr : x ≠ r) :
    c'.sockets x = c.sockets x := by
  simp [p.sockets, hs, hr]

/-- A socket with a peer is neither of the two. -/
theorem Paired.ne_of_peer (p : Paired c s r a b c') (h : Graph c) {x q : SockId} {d : ASocket}
    (hx : c.sockets x = some d) (hq : d.peer = some q) : x ≠ s ∧ x ≠ r := by
  constructor
  · rintro rfl
    rcases p.old with ⟨a₀, ha₀, hp, -⟩ | hf
    · obtain rfl : d = a₀ := Option.some.inj (hx.symm.trans ha₀)
      simp [hp] at hq
    · simp [h.sockets_fresh hf] at hx
  · rintro rfl
    simp [h.sockets_fresh p.next.1] at hx

/-- A socket that is on a list other than that of the local sockets is neither of the two. -/
theorem Paired.ne_of_not_local (p : Paired c s r a b c') (h : Graph c) {x : SockId}
    {d : ASocket}
    (hx : c.sockets x = some d) (hd : d.kind.isLocal = false ∨ d.closing = true) :
    x ≠ s ∧ x ≠ r := by
  constructor
  · rintro rfl
    rcases p.old with ⟨a₀, ha₀, -, hk, hc⟩ | hf
    · obtain rfl : d = a₀ := Option.some.inj (hx.symm.trans ha₀)
      simp [hk, hc] at hd
    · simp [h.sockets_fresh hf] at hx
  · rintro rfl
    simp [h.sockets_fresh p.next.1] at hx

/-- **Linking two sockets keeps the graph.** -/
theorem pair (h : Graph c) (p : Paired c s r a b c') : Graph c' where
  fresh := by
    intro x d hx
    have hn := p.next
    rcases p.cases hx with ⟨rfl, -⟩ | ⟨rfl, -⟩ | ⟨-, -, hx⟩
    · exact hn.2.2.1
    · exact hn.2.1
    · exact Nat.lt_of_lt_of_le (h.fresh hx) hn.2.2.2
  shape := by
    intro x d hx
    rcases p.cases hx with ⟨-, rfl⟩ | ⟨-, rfl⟩ | ⟨-, -, hx⟩
    · exact p.shape.1
    · exact p.shape.2
    · exact h.shape hx
  peer := by
    intro x d q hx hq
    rcases p.cases hx with ⟨rfl, rfl⟩ | ⟨rfl, rfl⟩ | ⟨hxs, hxr, hx⟩
    · obtain rfl : r = q := Option.some.inj (p.peer.1.symm.trans hq)
      exact ⟨b, p.at_r, p.peer.2.1, p.peer.2.2⟩
    · obtain rfl : s = q := Option.some.inj (p.peer.2.1.symm.trans hq)
      exact ⟨a, p.at_s, p.peer.1, p.peer.2.2.symm⟩
    · obtain ⟨d', hd', hp', hf⟩ := h.peer hx hq
      have hne := p.ne_of_peer h hd' hp'
      exact ⟨d', (p.at_other hne.1 hne.2).trans hd', hp', hf⟩
  mem_list := by
    intro x
    rw [p.list.1 x, h.mem_list x]
    by_cases hxs : x = s
    · subst hxs
      simp [p.at_s, p.ends]
    · by_cases hxr : x = r
      · subst hxr
        simp [p.at_r, p.ends, hxs, h.sockets_fresh p.next.1]
      · simp [p.at_other hxs hxr, hxs]
  mem_closing := by
    intro x
    rw [p.closing, h.mem_closing x]
    constructor
    · rintro ⟨d, hd, hc⟩
      have hne := p.ne_of_not_local h hd (.inr hc)
      exact ⟨d, (p.at_other hne.1 hne.2).trans hd, hc⟩
    · rintro ⟨d, hd, hc⟩
      rcases p.cases hd with ⟨-, rfl⟩ | ⟨-, rfl⟩ | ⟨-, -, hd⟩
      · simp [p.ends] at hc
      · simp [p.ends] at hc
      · exact ⟨d, hd, hc⟩
  nodup_list := p.list.2
  nodup_closing := by rw [p.closing]; exact h.nodup_closing
  remote := by
    intro x d hx hk
    have hmap (t : TId) (T : ATransport) (hT : c.transports t = some T) :
        ∃ T', c'.transports t = some T' ∧ T'.disconnects =
          T.disconnects ++ if b.kind = .remoteSocket ∧
          b.transport = some t then [r] else [] := by
      have := p.disconnects t
      rwa [hT, Option.map_some, Option.map_eq_some_iff] at this
    rcases p.cases hx with ⟨-, rfl⟩ | ⟨rfl, rfl⟩ | ⟨-, -, hx⟩
    · exact absurd p.ends.1 (by simp [hk, SockKind.isEnd])
    · obtain ⟨t, T, ht, hT⟩ := p.linked hk
      obtain ⟨T', hT', hd⟩ := hmap t T hT
      exact ⟨t, T', ht, hT', by simp [hd, hk, ht]⟩
    · obtain ⟨t, T, ht, hT, hm⟩ := h.remote hx hk
      obtain ⟨T', hT', hd⟩ := hmap t T hT
      exact ⟨t, T', ht, hT', by simp [hd, hm]⟩
  disconnects := by
    intro t T' hT'
    have hmap := p.disconnects t
    rw [hT', Option.map_some, eq_comm, Option.map_eq_some_iff] at hmap
    obtain ⟨T, hT, hd⟩ := hmap
    obtain ⟨hnd, hmem⟩ := h.disconnects hT
    have hr : r ∉ T.disconnects := by
      intro hm
      obtain ⟨d, hd', -⟩ := hmem r hm
      simp [h.sockets_fresh p.next.1] at hd'
    have hold : ∀ x ∈ T.disconnects, ∃ d, c'.sockets x = some d ∧ d.kind = .remoteSocket ∧
        d.transport = some t := by
      intro x hx
      obtain ⟨d, hd', hk, ht⟩ := hmem x hx
      have hne := p.ne_of_not_local h hd' (.inl (by simp [hk, SockKind.isLocal]))
      exact ⟨d, (p.at_other hne.1 hne.2).trans hd', hk, ht⟩
    rw [← hd]
    split_ifs with hb
    · refine ⟨List.nodup_append.mpr ⟨hnd, by simp, ?_⟩, ?_⟩
      · intro x hx y hy hxy
        simp only [List.mem_singleton] at hy
        exact hr (hy ▸ hxy ▸ hx)
      · intro x hx
        rcases List.mem_append.mp hx with hx | hx
        · exact hold x hx
        · obtain rfl := List.mem_singleton.mp hx
          exact ⟨b, p.at_r, hb.1, hb.2⟩
    · simp only [List.append_nil]
      exact ⟨hnd, hold⟩
  mem_trackers := by
    intro x d hx
    rw [p.trackers.1 x]
    rcases p.cases hx with ⟨rfl, rfl⟩ | ⟨rfl, rfl⟩ | ⟨hxs, -, hx⟩
    · constructor
      · rintro (⟨-, hk⟩ | hm)
        · exact hk
        · rcases p.old with ⟨a₀, ha₀, -, hk, -⟩ | hf
          · rw [(h.mem_trackers ha₀).mp hm] at hk
            simp [SockKind.isLocal] at hk
          · exact absurd (h.trackers.2 x hm) (Nat.not_lt.mpr hf)
      · exact fun hk => .inl ⟨rfl, hk⟩
    · constructor
      · rintro (⟨hxs, -⟩ | hm)
        · exact absurd hxs.symm p.ne
        · exact absurd (h.trackers.2 x hm) (Nat.not_lt.mpr p.next.1)
      · intro hk
        have he := p.ends.2.1
        simp [hk, SockKind.isEnd] at he
    · simpa [hxs] using h.mem_trackers hx
  trackers := by
    refine ⟨p.trackers.2, fun x hx => ?_⟩
    rcases (p.trackers.1 x).mp hx with ⟨rfl, -⟩ | hm
    · exact p.next.2.2.1
    · exact Nat.lt_of_lt_of_le (h.trackers.2 x hm) p.next.2.2.2

end Paired

/-! ### Separating two sockets -/

/-- `Parted c s far fate c'`: in `c'` the peer `far` of the local end `s` is gone, and of
`s` itself `fate` is left, without a peer. -/
structure Parted (c : Core) (s : SockId) (far : Option SockId) (fate : Option ASocket)
    (c' : Core) : Prop where
  sockets : c'.sockets = fun x =>
    if x = s then fate else if far = some x then none else c.sockets x
  old : ∃ a, c.sockets s = some a ∧ a.peer = far ∧ a.kind.isEnd = true ∧
    (fate ≠ none → a.kind.isLocal = true)
  left : ∀ a', fate = some a' → a'.Shape ∧ a'.peer = none ∧ a'.kind.isLocal = true
  next : c'.nextSock = c.nextSock
  list : (∀ x, x ∈ c'.localSocketList ↔
      (x = s ∧ ∃ a', fate = some a' ∧ a'.closing = false) ∨ (x ≠ s ∧ x ∈ c.localSocketList)) ∧
    c'.localSocketList.Nodup
  closing : (∀ x, x ∈ c'.localSocketClosingList ↔
      (x = s ∧ ∃ a', fate = some a' ∧ a'.closing = true) ∨
        (x ≠ s ∧ x ∈ c.localSocketClosingList)) ∧
    c'.localSocketClosingList.Nodup
  trackers : (∀ x, x ≠ s → (x ∈ c'.jdwpTrackersList ↔ x ∈ c.jdwpTrackersList)) ∧
    (∀ x ∈ c'.jdwpTrackersList, x ∈ c.jdwpTrackersList) ∧ c'.jdwpTrackersList.Nodup
  disconnects : ∀ t, (c'.transports t).map (·.disconnects) = (c.transports t).map fun T =>
    T.disconnects.filter fun x => far ≠ some x

section Parted

variable {far : Option SockId} {fate : Option ASocket}

/-- The two kinds of sockets of a memory in which a pair was separated. -/
theorem Parted.cases (p : Parted c s far fate c') {x : SockId} {d : ASocket}
    (hx : c'.sockets x = some d) :
    (x = s ∧ fate = some d) ∨ (x ≠ s ∧ far ≠ some x ∧ c.sockets x = some d) := by
  rw [p.sockets] at hx
  by_cases hxs : x = s
  · exact .inl ⟨hxs, by simpa [hxs] using hx⟩
  · by_cases hxf : far = some x
    · simp [hxs, hxf] at hx
    · exact .inr ⟨hxs, hxf, by simpa [hxs, hxf] using hx⟩

theorem Parted.at_s (p : Parted c s far fate c') : c'.sockets s = fate := by
  simp [p.sockets]

theorem Parted.at_other (p : Parted c s far fate c') {x : SockId} (hs : x ≠ s)
    (hf : far ≠ some x) : c'.sockets x = c.sockets x := by
  simp [p.sockets, hs, hf]

/-- A socket that faces one of the two is the other. -/
theorem Parted.ne_of_peer (p : Parted c s far fate c') (h : Graph c) {x q : SockId}
    {d : ASocket}
    (hxs : x ≠ s) (hxf : far ≠ some x) (hx : c.sockets x = some d) (hq : d.peer = some q) :
    q ≠ s ∧ far ≠ some q := by
  obtain ⟨a, ha, hp, -⟩ := p.old
  obtain ⟨b, hb, hpb, -⟩ := h.peer hx hq
  constructor
  · rintro rfl
    obtain rfl : a = b := Option.some.inj (ha.symm.trans hb)
    exact hxf (hp.symm.trans hpb)
  · rintro rfl
    obtain ⟨b', hb', hpb', -⟩ := h.peer ha hp
    obtain rfl : b = b' := Option.some.inj (hb.symm.trans hb')
    exact hxs (Option.some.inj (hpb.symm.trans hpb'))

/-- The far end is not on the lists of local sockets, and not a tracker. -/
theorem Parted.far_kind (p : Parted c s far fate c') (h : Graph c) {x : SockId} {d : ASocket}
    (hx : c.sockets x = some d) (hf : far = some x) :
    d.kind.isEnd = false ∧ d.closing = false := by
  subst hf
  obtain ⟨a, ha, hp, hk, -⟩ := p.old
  obtain ⟨b, hb, -, hf⟩ := h.peer ha hp
  obtain rfl : d = b := Option.some.inj (hx.symm.trans hb)
  have hend : d.kind.isEnd = false := by
    revert hf hk
    cases a.kind <;> cases d.kind <;> simp [SockKind.Faces, SockKind.isEnd]
  refine ⟨hend, ?_⟩
  cases hc : d.closing with
  | false => rfl
  | true =>
      have hl := ((h.shape hx).closing hc).1
      revert hl hend
      cases d.kind <;> simp [SockKind.isLocal, SockKind.isEnd]

/-- **Separating two sockets keeps the graph.** -/
theorem part (h : Graph c) (p : Parted c s far fate c') : Graph c' where
  fresh := by
    intro x d hx
    rw [p.next]
    rcases p.cases hx with ⟨rfl, -⟩ | ⟨-, -, hx⟩
    · obtain ⟨a, ha, -⟩ := p.old
      exact h.fresh ha
    · exact h.fresh hx
  shape := by
    intro x d hx
    rcases p.cases hx with ⟨-, hf⟩ | ⟨-, -, hx⟩
    · exact (p.left d hf).1
    · exact h.shape hx
  peer := by
    intro x d q hx hq
    rcases p.cases hx with ⟨-, hf⟩ | ⟨hxs, hxf, hx⟩
    · simp [(p.left d hf).2.1] at hq
    · obtain ⟨b, hb, hpb, hf⟩ := h.peer hx hq
      have hne := p.ne_of_peer h hxs hxf hx hq
      exact ⟨b, (p.at_other hne.1 hne.2).trans hb, hpb, hf⟩
  mem_list := by
    intro x
    rw [p.list.1 x, h.mem_list x]
    by_cases hxs : x = s
    · subst hxs
      rw [p.at_s]
      constructor
      · rintro (⟨-, a', hf, hc⟩ | ⟨hne, -⟩)
        · have hl := (p.left a' hf).2.2
          exact ⟨a', hf, by revert hl; cases a'.kind <;>
            simp [SockKind.isLocal, SockKind.isEnd], hc⟩
        · exact absurd rfl hne
      · rintro ⟨a', hf, -, hc⟩
        exact .inl ⟨rfl, a', hf, hc⟩
    · by_cases hxf : far = some x
      · have hnone : c'.sockets x = none := by simp [p.sockets, hxs, hxf]
        simp only [hxs, false_and, not_false_eq_true, true_and, false_or, hnone, ne_eq]
        constructor
        · rintro ⟨d, hd, hk, -⟩
          simp [(p.far_kind h hd hxf).1] at hk
        · rintro ⟨d, hd, -⟩
          simp at hd
      · simp [p.at_other hxs hxf, hxs]
  mem_closing := by
    intro x
    rw [p.closing.1 x, h.mem_closing x]
    by_cases hxs : x = s
    · subst hxs
      rw [p.at_s]
      simp
    · by_cases hxf : far = some x
      · have hnone : c'.sockets x = none := by simp [p.sockets, hxs, hxf]
        simp only [hxs, false_and, not_false_eq_true, true_and, false_or, hnone, ne_eq]
        constructor
        · rintro ⟨d, hd, hc⟩
          simp [(p.far_kind h hd hxf).2] at hc
        · rintro ⟨d, hd, -⟩
          simp at hd
      · simp [p.at_other hxs hxf, hxs]
  nodup_list := p.list.2
  nodup_closing := p.closing.2
  remote := by
    intro x d hx hk
    rcases p.cases hx with ⟨-, hf⟩ | ⟨hxs, hxf, hx⟩
    · exact absurd (p.left d hf).2.2 (by simp [hk, SockKind.isLocal])
    · obtain ⟨t, T, ht, hT, hm⟩ := h.remote hx hk
      have hmap := p.disconnects t
      rw [hT, Option.map_some, Option.map_eq_some_iff] at hmap
      obtain ⟨T', hT', hd⟩ := hmap
      exact ⟨t, T', ht, hT', by rw [hd]; exact List.mem_filter.mpr ⟨hm, by simpa using hxf⟩⟩
  disconnects := by
    intro t T' hT'
    have hmap := p.disconnects t
    rw [hT', Option.map_some, eq_comm, Option.map_eq_some_iff] at hmap
    obtain ⟨T, hT, hd⟩ := hmap
    obtain ⟨hnd, hmem⟩ := h.disconnects hT
    rw [← hd]
    refine ⟨hnd.filter _, fun x hx => ?_⟩
    obtain ⟨hx, hxf⟩ := List.mem_filter.mp hx
    have hxf : far ≠ some x := by simpa using hxf
    obtain ⟨d, hd', hk, ht⟩ := hmem x hx
    have hxs : x ≠ s := by
      rintro rfl
      obtain ⟨a, ha, -, hke, -⟩ := p.old
      obtain rfl : a = d := Option.some.inj (ha.symm.trans hd')
      simp [hk, SockKind.isEnd] at hke
    exact ⟨d, (p.at_other hxs hxf).trans hd', hk, ht⟩
  mem_trackers := by
    intro x d hx
    rcases p.cases hx with ⟨rfl, hf⟩ | ⟨hxs, -, hx⟩
    · have hl := (p.left d hf).2.2
      obtain ⟨a, ha, -, -, hal⟩ := p.old
      have hal := hal (by simp [hf])
      constructor
      · intro hm
        rw [(h.mem_trackers ha).mp (p.trackers.2.1 x hm)] at hal
        simp [SockKind.isLocal] at hal
      · intro hk
        simp [hk, SockKind.isLocal] at hl
    · rw [p.trackers.1 x hxs]
      exact h.mem_trackers hx
  trackers := by
    refine ⟨p.trackers.2.2, fun x hx => ?_⟩
    rw [p.next]
    exact h.trackers.2 x (p.trackers.2.1 x hx)

end Parted

/-! ### Transports coming and going -/

/-- A new transport has no sockets. -/
theorem newTransport (h : Graph c) {t : TId} {T : ATransport} (hT : c.transports t = none)
    (hd : T.disconnects = []) : Graph (c.putTransport t (some T)) :=
  { h with
    remote := by
      intro x d hx hk
      obtain ⟨t', T', ht', hT', hm⟩ := h.remote hx hk
      have hne : t' ≠ t := by rintro rfl; simp [hT] at hT'
      exact ⟨t', T', ht', by simp [Core.putTransport, hne, hT'], hm⟩
    disconnects := by
      intro t' T' hT'
      by_cases hne : t' = t
      · subst hne
        obtain rfl : T = T' := by simpa [Core.putTransport] using hT'
        simp [hd]
      · exact h.disconnects (by simpa [Core.putTransport, hne] using hT') }

/-- A transport without sockets may go. -/
theorem dropTransport (h : Graph c) {t : TId} {T : ATransport} (hT : c.transports t = some T)
    (hd : T.disconnects = []) : Graph (c.putTransport t none) :=
  { h with
    remote := by
      intro x d hx hk
      obtain ⟨t', T', ht', hT', hm⟩ := h.remote hx hk
      have hne : t' ≠ t := by
        rintro rfl
        obtain rfl : T = T' := Option.some.inj (hT.symm.trans hT')
        simp [hd] at hm
      exact ⟨t', T', ht', by simp [Core.putTransport, hne, hT'], hm⟩
    disconnects := by
      intro t' T' hT'
      have hne : t' ≠ t := by rintro rfl; simp [Core.putTransport] at hT'
      exact h.disconnects (by simpa [Core.putTransport, hne] using hT') }

/-! ### The operations -/

/-- A new local end is not on the list yet. -/
theorem not_mem_list (h : Graph c) : c.nextSock ∉ c.localSocketList := by
  intro hm
  obtain ⟨a, ha, -⟩ := (h.mem_list _).mp hm
  simp [h.sockets_fresh (Nat.le_refl _)] at ha

/-- A new address is not on the list of trackers. -/
theorem not_mem_trackers (h : Graph c) : c.nextSock ∉ c.jdwpTrackersList :=
  fun hm => Nat.lt_irrefl _ (h.trackers.2 _ hm)

/-- Appending an absent element to a list without duplicates. -/
theorem nodup_append_absent {l : List SockId} {x : SockId} (hl : l.Nodup) (hx : x ∉ l) :
    (l ++ [x]).Nodup :=
  List.nodup_append.mpr ⟨hl, by simp, fun y hy z hz hyz => by
    rw [List.mem_singleton.mp hz] at hyz
    exact hx (hyz ▸ hy)⟩

theorem accept (h : Graph c) (fd : Nat) : Graph (c.accept fd) := by
  refine h.pair (s := c.nextSock) (r := c.nextSock + 1)
    (a := { kind := .localSocket, id := c.localSocketNextId, peer := some (c.nextSock + 1),
            fd := fd, writeFd := fd })
    (b := { kind := .smartSocket, peer := some c.nextSock })
    ⟨rfl, by simp, ?_, .inr (Nat.le_refl _), ?_, ?_, ?_, ⟨?_, ?_⟩, rfl,
      ⟨?_, h.trackers.1⟩, ?_, ?_⟩
  · simp [Core.accept]
  · exact ⟨⟨by simp, by simp, by simp⟩, ⟨by simp, by simp, by simp⟩⟩
  · simp [SockKind.Faces]
  · simp [SockKind.isEnd]
  · simp [Core.accept, or_comm]
  · exact nodup_append_absent h.nodup_list h.not_mem_list
  · simp [Core.accept]
  · simp
  · simp [Core.accept]

theorem openStream (h : Graph c) (d : Open) (hk : d.kind.isEnd = true)
    (hn : d.kind ≠ .localNotify) (hT : c.transports d.t = some d.T) :
    Graph (c.openStream d) := by
  refine h.pair (s := c.nextSock) (r := c.nextSock + 1)
    (a := { kind := d.kind, id := c.localSocketNextId, exitOnClose := d.exitOnClose,
            peer := some (c.nextSock + 1), fd := d.fd, writeFd := d.writeFd,
            needUpdate := d.kind = .jdwpTracker })
    (b := { kind := .remoteSocket, id := d.remote, transport := some d.t,
            peer := some c.nextSock })
    ⟨rfl, by simp, ?_, .inr (Nat.le_refl _), ?_, ?_, ?_, ⟨?_, ?_⟩, rfl, ⟨?_, ?_⟩, ?_, ?_⟩
  · simp [Core.openStream]
  · exact ⟨⟨by simp [hn], by simp, by simp⟩, ⟨by simp, by simp, by simp⟩⟩
  · revert hk
    cases d.kind <;> simp [SockKind.Faces, SockKind.isEnd]
  · exact ⟨hk, rfl, rfl, rfl⟩
  · simp [Core.openStream, or_comm]
  · exact nodup_append_absent h.nodup_list h.not_mem_list
  · intro x
    simp only [Core.openStream]
    split_ifs with hj
    · simp [hj, or_comm]
    · simp [hj]
  · simp only [Core.openStream]
    split_ifs
    · exact nodup_append_absent h.trackers.1 h.not_mem_trackers
    · exact h.trackers.1
  · exact fun _ => ⟨d.t, d.T, rfl, hT⟩
  · intro t
    by_cases ht : t = d.t
    · subst ht
      simp [Core.openStream, hT]
    · simp [Core.openStream, ht, Ne.symm ht]

theorem attach (h : Graph c) {id : UInt32} {t : TId} {T : ATransport} {m : AMessage}
    (hs : c.sockets s = some a) (hl : a.kind.isLocal = true) (hp : a.peer = none)
    (hc : a.closing = false) (hT : c.transports t = some T) :
    Graph (c.attach s a id t T m) := by
  have hlt := h.fresh hs
  have hmem : s ∈ c.localSocketList := h.mem_list_of hs
    (by revert hl; cases a.kind <;> simp [SockKind.isLocal, SockKind.isEnd]) hc
  refine h.pair (s := s) (r := c.nextSock)
    (a := { a with kind := .localSocket, peer := some c.nextSock })
    (b := { kind := .remoteSocket, id := id, transport := some t, peer := some s })
    ⟨rfl, Nat.ne_of_lt hlt, ?_, .inl ⟨a, hs, hp, hl, hc⟩, ?_, ?_, ?_, ⟨?_, h.nodup_list⟩, rfl,
      ⟨?_, h.trackers.1⟩, ?_, ?_⟩
  · simp only [Core.attach]
    exact ⟨Nat.le_refl _, Nat.lt_succ_self _, Nat.lt_succ_of_lt hlt, Nat.le_succ _⟩
  · exact ⟨⟨by simp [hc], by simp [hc], by simp [SockKind.isLocal]⟩,
      ⟨by simp, by simp, by simp⟩⟩
  · simp [SockKind.Faces, SockKind.isEnd]
  · simp [SockKind.isEnd, hc]
  · intro x
    constructor
    · exact .inr
    · rintro (rfl | hx)
      · exact hmem
      · exact hx
  · simp [Core.attach]
  · exact fun _ => ⟨t, T, rfl, hT⟩
  · intro t'
    by_cases ht : t' = t
    · subst ht
      simp [Core.attach, hT]
    · simp [Core.attach, ht, Ne.symm ht]

/-- Unlinking the disconnect node of a remote socket, on all transports at once: it is
linked on no transport but its own. -/
theorem close_disconnects (h : Graph c) (d : Close) (addr : Nat)
    (hfar : ∀ o b, d.far = some (o, b) → c.sockets o = some b) {t : TId} {T : ATransport}
    (hT : c.transports t = some T) :
    (d.onTransport addr t T).disconnects =
      T.disconnects.filter fun x => d.far.map (·.1) ≠ some x := by
  cases hf : d.far with
  | none => simp [Close.onTransport, Close.remote, hf]
  | some ob =>
      obtain ⟨o, b⟩ := ob
      have hiff := h.disconnect_iff hT (hfar o b hf)
      have herase : (T.disconnects.filter fun x => (some (o, b)).map (·.1) ≠ some x) =
          T.disconnects.erase o := by
        rw [(h.disconnects hT).1.erase_eq_filter]
        refine List.filter_congr fun x _ => ?_
        by_cases hx : o = x
        · simp [hx]
        · simp [hx, Ne.symm hx]
      rw [herase]
      by_cases hm : b.kind = .remoteSocket ∧ b.transport = some t
      · simp [Close.onTransport, Close.remote, hf, hm]
      · have hself : T.disconnects.erase o = T.disconnects :=
          List.erase_of_not_mem fun ho => hm (hiff.mp ho)
        rw [hself]
        simp only [Close.onTransport, Close.remote, hf]
        by_cases hk : b.kind = .remoteSocket
        · cases ht : b.transport with
          | none => simp [hk]
          | some t' =>
              have hne : t' ≠ t := by rintro rfl; exact hm ⟨hk, ht⟩
              simp [hk, hne]
        · simp [hk]

theorem close (h : Graph c) (d : Close) (hs : c.sockets d.sock = some d.self)
    (hk : d.self.kind.isEnd = true) (hp : d.self.peer = d.far.map (·.1))
    (hfar : ∀ o b, d.far = some (o, b) → c.sockets o = some b) : Graph (c.close d) := by
  have hsh := h.shape hs
  -- a socket that survives was not closing and had unwritten data, so it is a local one
  have hsurv : d.fate ≠ none →
      d.self.closing = false ∧ d.self.queue ≠ [] ∧ d.self.kind.isLocal = true := by
    intro hf
    have hd : d.self.closing = false ∧ d.self.queue ≠ [] := by
      by_contra hno
      exact hf (by simp_all [Close.fate])
    refine ⟨hd.1, hd.2, ?_⟩
    rcases hsh.queue with hl | hq | ⟨hss, -⟩
    · exact hl
    · exact absurd hq hd.2
    · simp [hss, SockKind.isEnd] at hk
  have hleft : ∀ a', d.fate = some a' → a'.Shape ∧ a'.peer = none ∧ a'.kind.isLocal = true ∧
      a'.closing = true := by
    intro a' hf
    obtain ⟨-, hq, hl⟩ := hsurv (by simp [hf])
    simp only [Close.fate] at hf
    split_ifs at hf with hd
    all_goals
      obtain rfl := Option.some.inj hf
      first
      | exact ⟨⟨by simp, fun _ => ⟨hl, hq⟩, .inl hl⟩, rfl, hl, rfl⟩
      | exact ⟨⟨by simp, fun _ => ⟨rfl, hq⟩, .inl rfl⟩, rfl, rfl, rfl⟩
  suffices hpart : Parted c d.sock (d.far.map (·.1)) d.fate (c.close d) from h.part hpart
  refine ⟨rfl, ⟨d.self, hs, hp, hk, fun hf => (hsurv hf).2.2⟩, fun a' hf => ?_, rfl,
    ⟨fun x => ?_, ?_⟩, ⟨fun x => ?_, ?_⟩, ⟨fun x hx => ?_, fun x => ?_, ?_⟩, fun t => ?_⟩
  · exact ⟨(hleft a' hf).1, (hleft a' hf).2.1, (hleft a' hf).2.2.1⟩
  · simp only [Core.close, h.nodup_list.mem_erase_iff]
    constructor
    · exact .inr
    · rintro (⟨-, a', hf, hc⟩ | hx)
      · simp [(hleft a' hf).2.2.2] at hc
      · exact hx
  · exact h.nodup_list.erase _
  · simp only [Core.close]
    cases hf : d.fate with
    | none => simp [h.nodup_closing.mem_erase_iff]
    | some a' =>
        have hns : d.sock ∉ c.localSocketClosingList := by
          intro hm
          obtain ⟨a₀, ha₀, hc⟩ := (h.mem_closing _).mp hm
          obtain rfl : d.self = a₀ := Option.some.inj (hs.symm.trans ha₀)
          simp [(hsurv (by simp [hf])).1] at hc
        simp only [Option.isSome_some, if_true, List.mem_append, List.mem_singleton,
          Option.some.injEq, exists_eq_left', (hleft a' hf).2.2.2, and_true]
        by_cases hx : x = d.sock
        · simp [hx]
        · simp [hx]
  · simp only [Core.close]
    split_ifs with hf
    · refine nodup_append_absent h.nodup_closing fun hm => ?_
      obtain ⟨a₀, ha₀, hc⟩ := (h.mem_closing _).mp hm
      obtain rfl : d.self = a₀ := Option.some.inj (hs.symm.trans ha₀)
      simp [(hsurv (by simpa [Option.isSome_iff_ne_none] using hf)).1] at hc
    · exact h.nodup_closing.erase _
  · simp only [Core.close]
    split_ifs
    · simp [h.trackers.1.mem_erase_iff, hx]
    · rfl
  · simp only [Core.close]
    split_ifs
    · exact List.mem_of_mem_erase
    · exact id
  · simp only [Core.close]
    split_ifs
    · exact h.trackers.1.erase _
    · exact h.trackers.1
  · cases hT : c.transports t with
    | none => simp [Core.close, hT]
    | some T => simp [Core.close, hT, h.close_disconnects d c.nextPkt hfar hT]

theorem rig (h : Graph c) {ss : SockId} {b : ASocket} {t : TId} {T : ATransport}
    {p : Nat → APacket} (hs : c.sockets s = some a) (hp : a.peer = some ss)
    (hb : c.sockets ss = some b) (hk : b.kind = .smartSocket)
    (hT : c.transports t = some T) : Graph (c.rig s a ss b t T p) := by
  obtain ⟨b', hb', hpb, hf⟩ := h.peer hs hp
  obtain rfl : b = b' := Option.some.inj (hb.symm.trans hb')
  have hka : a.kind = .localSocket := by
    revert hf
    rw [hk]
    cases a.kind <;> simp [SockKind.Faces, SockKind.isEnd]
  have hca : a.closing = false := by
    cases hc : a.closing with
    | false => rfl
    | true => simp [(h.shape hs).peer.mpr (.inr hc)] at hp
  have hmem : s ∈ c.localSocketList := h.mem_list_of hs (by simp [hka, SockKind.isEnd]) hca
  suffices hpart : Parted c s (some ss)
      (some { a with kind := .localNotify, peer := none, transport := some t })
      (c.rig s a ss b t T p) from h.part hpart
  refine ⟨?_, ⟨a, hs, hp, by simp [hka, SockKind.isEnd], by simp [hka, SockKind.isLocal]⟩, ?_,
    rfl, ⟨fun x => ?_, h.nodup_list⟩, ⟨fun x => ?_, h.nodup_closing⟩,
    ⟨fun x _ => Iff.rfl, fun x hx => hx, h.trackers.1⟩, fun t' => ?_⟩
  · funext x
    simp [Core.rig, eq_comm]
  · rintro a' rfl'
    obtain rfl := Option.some.inj rfl'
    exact ⟨⟨by simp, by simp [hca], by simp [SockKind.isLocal]⟩, rfl, rfl⟩
  · by_cases hx : x = s
    · subst hx
      simp [Core.rig, hmem, hca]
    · simp [Core.rig, hx]
  · by_cases hx : x = s
    · subst hx
      simp [Core.rig, hca, h.mem_closing, hs]
    · simp [Core.rig, hx]
  · -- a smart socket is on no disconnect list
    have hfil (T' : ATransport) (hT' : c.transports t' = some T') :
        T'.disconnects.filter (fun x => some ss ≠ some x) = T'.disconnects := by
      refine List.filter_eq_self.mpr fun x hx => ?_
      have : ss ≠ x := by
        rintro rfl
        simp [h.disconnect_iff hT' hb, hk] at hx
      simpa using this
    by_cases ht : t' = t
    · subst ht
      simp only [Core.rig, Function.update_self, Option.map_some, hT, hfil T hT]
    · simp only [Core.rig, Function.update_of_ne ht]
      cases hT' : c.transports t' with
      | none => rfl
      | some T' => simp only [Option.map_some, hfil T' hT']

theorem note (h : Graph c) (o : Obs) : Graph (c.note o) :=
  h.congr rfl rfl rfl rfl rfl fun _ => rfl

theorem onLoop (h : Graph c) (f : Loop FdeId → Loop FdeId) : Graph (c.onLoop f) :=
  h.congr rfl rfl rfl rfl rfl fun _ => rfl

theorem freePkts (h : Graph c) (l : List Nat) : Graph (c.freePkts l) :=
  h.congr rfl rfl rfl rfl rfl fun _ => rfl

theorem newPkt (h : Graph c) : Graph c.newPkt :=
  h.congr rfl rfl rfl rfl rfl fun _ => rfl

theorem push (h : Graph c) {t : TId} {T : ATransport} (hT : c.transports t = some T)
    (p : APacket) : Graph (c.push t T p) :=
  h.putTransport hT rfl

theorem sendNew (h : Graph c) {t : TId} {T : ATransport} (hT : c.transports t = some T)
    (s : Option SockId) (f : Nat → APacket) : Graph (c.sendNew t T s f) :=
  (h.newPkt.push hT _).note _

/-- A local socket's queue changes, and is not emptied while the socket is closing. -/
theorem setQueue (h : Graph c) {q : List APacket} (hs : c.sockets s = some a)
    (hl : a.kind.isLocal = true) (hq : a.closing = true → q ≠ []) :
    Graph (c.putSock s (some { a with queue := q })) :=
  h.putSock hs rfl rfl rfl (fun _ => rfl) ((h.shape hs).setQueue hl hq)

theorem drained (h : Graph c) {d : Drained} (hs : c.sockets s = some a)
    (hl : a.kind.isLocal = true) (hd : a.closing = true → d.queue ≠ []) :
    Graph (c.drained s a d) :=
  (h.setQueue hs hl hd).congr rfl rfl rfl rfl rfl fun _ => rfl

theorem link (h : Graph c) {p : APacket} (hs : c.sockets s = some a)
    (hl : a.kind.isLocal = true) : Graph (c.link s a p) :=
  (h.setQueue hs hl fun _ => by simp).onLoop _

/-- A closing socket whose queue was drained is destroyed as by a plain close. -/
theorem drainDestroy (h : Graph c) {d : Drained} {notes : List Obs} (hs : c.sockets s = some a)
    (hl : a.kind.isLocal = true) (hc : a.closing = true) :
    Graph ((c.drained s a d).close
      { sock := s, self := { a with queue := d.queue }, far := none, how := .call,
        notes }) := by
  have hk : a.kind.isEnd = true := by
    revert hl; cases a.kind <;> simp [SockKind.isLocal, SockKind.isEnd]
  have hpeer : a.peer = none := (h.shape hs).peer.mpr (.inr hc)
  have hclose := h.close { sock := s, self := a, far := none, how := .call, notes := notes }
    hs hk hpeer (by simp)
  refine hclose.congr ?_ rfl rfl ?_ ?_ fun t => rfl
  · funext x
    by_cases hx : x = s
    · simp [Core.close, Close.fate, hx, hc]
    · simp [Core.close, Core.drained, Core.freePkts, Core.putSock, hx]
  · simp [Core.close, Close.fate, hc, Core.drained, Core.freePkts, Core.putSock]
  · simp [Core.close, Core.drained, Core.freePkts, Core.putSock]

/-- **Every operation keeps the socket graph.** -/
theorem op {w : Work} {o : Op} (h : Graph w.core) (hg : o.Guard w) :
    Graph (o.apply w).core := by
  rw [Op.apply_core]
  cases o with dsimp only [Op.effect]
  | io | pids => exact h.congr rfl rfl rfl rfl rfl fun _ => rfl
  | note | deliver => exact h.note _
  | newPkt => exact h.newPkt
  | freePkt => exact h.freePkts _
  | lose => exact h
  | select | take | force | pendRead | readOff => exact h.onLoop _
  | ready => exact (h.note _).onLoop _
  | wrteFail => exact (((h.note _).note _).note _).note _
  | unlink => exact h.congr rfl rfl rfl rfl rfl fun _ => rfl
  | send t T p => exact (h.push hg.1 p).note _
  | sendList s t T p => exact (h.push hg.1 p).note _
  | readWrte s a t T p => exact ((h.push hg.2.2.1 p).note _).onLoop _
  | conn t T online state quals => exact h.putTransport hg rfl
  | popMain t T p rest => exact h.putTransport hg.1 rfl
  | popIo t T p rest => exact h.putTransport hg.1 rfl
  | post t T p => exact h.putTransport hg.1 rfl
  | closePipes t T => exact h.putTransport hg rfl
  | register t type =>
      have hnew : Graph (w.core.putTransport t (some { type := type })) :=
        h.newTransport hg rfl
      exact hnew.congr rfl rfl rfl rfl rfl fun _ => rfl
  | unregister t T => exact h.dropTransport hg.1 hg.2.1
  | flags s a pass needUpdate =>
      have hsh := h.shape hg.1
      exact h.putSock hg.1 rfl rfl rfl (fun _ => rfl) ⟨hsh.peer, hsh.closing, hsh.queue⟩
  | choose s b t =>
      have hsh := h.shape hg.1
      exact h.putSock hg.1 rfl rfl rfl (fun hk => by simp [hg.2] at hk)
        ⟨hsh.peer, hsh.closing, hsh.queue⟩
  | collectFirst s b p =>
      have hsh := h.shape hg.1
      exact h.putSock hg.1 rfl rfl rfl (fun _ => rfl)
        ⟨hsh.peer, fun hc => by simpa [hg.2.1] using (hsh.closing hc).1,
          .inr (.inr ⟨hg.2.1, by simp⟩)⟩
  | collectMore s b p =>
      have hsh := h.shape hg.1
      exact h.putSock hg.1 rfl rfl rfl (fun _ => rfl)
        ⟨hsh.peer, fun hc => by simpa [hg.2.1] using (hsh.closing hc).1,
          .inr (.inr ⟨hg.2.1, by simp⟩)⟩
  | accept fd => exact h.accept fd
  | rig s a ss b t T p =>
      obtain ⟨hs, hp, hb, hk, -, hT, -⟩ := hg
      exact h.rig hs hp hb hk hT
  | openStream d => exact h.openStream d hg.1 hg.2.1 hg.2.2
  | attach s a id t T m =>
      obtain ⟨hs, hl, hp, hc, hT⟩ := hg
      exact h.attach hs hl hp hc hT
  | wrteQueue t s a m p => exact ((h.note _).note _).link hg.1 hg.2.1
  | wrteBlock t s a m p bs => exact (((h.note _).note _).note _).link hg.1 hg.2.1
  | wrteDone t s a T m p =>
      refine sendNew (freePkts ((((h.note _).note _).note _).note _) _) ?_ _ _
      exact hg.2.2.2.2.2
  | drain s a d =>
      obtain ⟨hs, hl, ⟨ws, rfl⟩, hv, -⟩ := hg
      have hd := h.drained hs hl fun _ hq => hv ((drain_drained_iff ws a.queue).mpr hq)
      split
      · exact hd.note _
      · exact hd
  | drainDestroy s a d notes =>
      obtain ⟨hs, hl, -, -, hc, -⟩ := hg
      exact h.drainDestroy hs hl hc
  | drainReady s a d far =>
      obtain ⟨hs, hk, -, -, hc, -, q, b, -, -, hfar⟩ := hg
      have hd := h.drained (d := d) hs (by simp [hk, SockKind.isLocal]) (by simp [hc])
      rcases hfar with ⟨-, rfl⟩ | ⟨-, t, T, -, hT, rfl⟩
      · exact hd.onLoop _
      · exact (hd.onLoop _).sendNew hT _ _
  | close d =>
      obtain ⟨hs, hk, hp, -, hfar⟩ := hg
      exact h.close d hs hk hp hfar

end Graph

end Adbd
