import Adbd.ClosedPipe

/-!
# Closing All Sockets of a Transport

`close_all_sockets` walks along the list of local sockets, closes the first one that belongs to
the transport, and starts again. Here this is looked at on any table of sockets whose peers
point to each other: a socket of any kind with a peer of any kind, or none, with or without
unwritten packets. Every turn takes the socket it closes off the list, and its peer with it if
that is on the list too, and leaves all other streams alone. So the loop ends, and what it
leaves behind is known for every socket. It stops on the way only if a socket of the transport
has its peer on a transport whose pipes are closed.

## Main definitions

* `Table`: a table of sockets as the code keeps it.
* `ClosedAll`: what `close_all_sockets` should have done when it returns.
* `Core.HasShut`: a socket of the transport faces a closed pipe.

## Main results

* `WF.table`: the tables the daemon reaches are such tables.
* `close_all_iff`: `close_all_sockets` ends and has done what it should, exactly if no socket
  of the transport faces a closed pipe.
* `close_all_shut`: the daemon can come to call it where one does.
-/

namespace Adbd

open Program

variable {c c' c'' : Core} {s q x : SockId} {a b : ASocket} {t : TId} {o : Option ASocket}

/-! ### Tables of sockets -/

/-- The lists, the queues and the nodes of the remote sockets fit the records of the
sockets. -/
structure Store (c : Core) : Prop where
  mem_list : ∀ s, s ∈ c.localSocketList ↔
    ∃ a, c.sockets s = some a ∧ a.kind.isEnd = true ∧ a.closing = false
  mem_closing : ∀ s, s ∈ c.localSocketClosingList ↔
    ∃ a, c.sockets s = some a ∧ a.kind.isEnd = true ∧ a.closing = true
  nodup_list : c.localSocketList.Nodup
  nodup_closing : c.localSocketClosingList.Nodup
  remote : ∀ {s a}, c.sockets s = some a → a.kind = .remoteSocket →
    ∃ t T, a.transport = some t ∧ c.transports t = some T
  disconnects : ∀ {t T}, c.transports t = some T → T.disconnects.Nodup ∧
    ∀ s ∈ T.disconnects, ∃ a, c.sockets s = some a ∧ a.kind = .remoteSocket ∧
      a.transport = some t
  queue : ∀ {s a}, c.sockets s = some a → (addrs a.queue).Nodup ∧
    ∀ x ∈ addrs a.queue, c.livePkts x = true
  apart : ∀ {s s' a a' x}, c.sockets s = some a → c.sockets s' = some a' → x ∈ addrs a.queue →
    x ∈ addrs a'.queue → s = s'

/-- **A table of sockets.** Peers point to each other. A socket that waits for its `OKAY` gets
its peer with it, and a tracker is one end of a stream of the remote. -/
structure Table (c : Core) : Prop extends Store c where
  peer : ∀ {s a q}, c.sockets s = some a → a.peer = some q →
    q ≠ s ∧ ∃ b, c.sockets q = some b ∧ b.peer = some s
  waiting : ∀ {s a}, c.sockets s = some a → a.kind = .localNotify → a.peer = none
  tracker : ∀ {s a q b}, c.sockets s = some a → a.kind = .jdwpTracker → a.peer = some q →
    c.sockets q = some b → b.kind.isEnd = false

/-- **The tables the daemon reaches.** -/
theorem WF.table {H : List Nat} (h : WF ⟨c, H⟩) : Table c where
  mem_list := h.graph.mem_list
  mem_closing s := by
    refine (h.graph.mem_closing s).trans ⟨fun ⟨a, hs, hc⟩ => ⟨a, hs, ?_, hc⟩,
      fun ⟨a, hs, _, hc⟩ => ⟨a, hs, hc⟩⟩
    have hk := ((h.graph.shape hs).closing hc).1
    revert hk
    cases a.kind <;> simp [SockKind.isLocal, SockKind.isEnd]
  nodup_list := h.graph.nodup_list
  nodup_closing := h.graph.nodup_closing
  remote hs hk := by
    obtain ⟨t, T, ht, hT, -⟩ := h.graph.remote hs hk
    exact ⟨t, T, ht, hT⟩
  disconnects := h.graph.disconnects
  queue {s a} hs := by
    have hn := h.pkts.nodup (.queue s)
    exact ⟨by simpa [Work.ledger, Work.held, hs] using hn, h.live_queue hs⟩
  apart {s s' a a' x} hs hs' hx hx' := by
    have hsame : Owner.queue s = .queue s' := h.pkts.unique
      (by simpa [Work.ledger, Work.held, hs] using hx)
      (by simpa [Work.ledger, Work.held, hs'] using hx')
    simpa using hsame
  peer hs hp := by
    obtain ⟨b, hb, hpb, -⟩ := h.graph.peer hs hp
    exact ⟨h.graph.peer_ne hs hp, b, hb, hpb⟩
  waiting hs hk := (h.graph.shape hs).peer.mpr (.inl hk)
  tracker {s a q b} hs hk hp hb := by
    obtain ⟨b', hb', -, hf⟩ := h.graph.peer hs hp
    obtain rfl : b = b' := Option.some.inj (hb.symm.trans hb')
    rw [hk] at hf
    revert hf
    cases b.kind <;> simp [SockKind.Faces, SockKind.isEnd]

/-! ### What should be left of it -/

/-- What `local_socket_close_locked` leaves of a socket: with unwritten packets it goes to the
closing list. -/
def ASocket.left (a : ASocket) : Option ASocket :=
  if a.closing || a.queue.isEmpty then none
  else some { a with peer := none, closing := true, id := 0 }

/-- **Destroyed, or moved with its queue intact.** Local sockets that have unwritten packets
are moved. -/
def Left (a : ASocket) (o : Option ASocket) : Prop :=
  o = a.left ∨ a.kind.isLocal = false ∧ o = none

namespace Core

/-- `x` is an end of the stream of `s`: the socket itself or its peer. -/
def Stream (c : Core) (s x : SockId) : Prop :=
  x = s ∨ ∃ a, c.sockets s = some a ∧ a.peer = some x

/-- `x` is a socket on the list that belongs to `t`, or the peer of one. -/
def Concerns (c : Core) (t : TId) (x : SockId) : Prop :=
  ∃ s ∈ c.localSocketList, c.belongs t s = true ∧ c.Stream s x

/-- The socket is remote, and what is sent on its transport goes into a closed pipe. -/
def Shut (c : Core) (b : ASocket) : Prop :=
  b.kind = .remoteSocket ∧
    ∃ t T, b.transport = some t ∧ c.transports t = some T ∧ c.canWrite t T = false

/-- The peer of `s` is such a socket. -/
def FacesShut (c : Core) (s : SockId) : Prop :=
  ∃ a q b, c.sockets s = some a ∧ a.peer = some q ∧ c.sockets q = some b ∧ c.Shut b

/-- **A socket of the transport faces a closed pipe.** -/
def HasShut (c : Core) (t : TId) : Prop :=
  ∃ s ∈ c.localSocketList, c.belongs t s = true ∧ c.FacesShut s

end Core

/-- **What `close_all_sockets` should have done**: it leaves a table, with no socket of `t` on
the list; each that was there is destroyed, or on the closing list with its queue; and no
socket is changed but those and their peers. -/
structure ClosedAll (t : TId) (c c' : Core) : Prop where
  table : Table c'
  complete : ∀ s ∈ c'.localSocketList, c'.belongs t s = false
  left : ∀ s ∈ c.localSocketList, c.belongs t s = true → ∀ a, c.sockets s = some a →
    Left a (c'.sockets s) ∧ (c'.sockets s = none ∨ s ∈ c'.localSocketClosingList)
  frame : ∀ x, ¬c.Concerns t x → c'.sockets x = c.sockets x

/-! ### Closing one socket without a peer -/

/-- The socket `s` is closed, and `o` is left of it. -/
structure Gone (c c' : Core) (s : SockId) (a : ASocket) (o : Option ASocket) : Prop where
  sockets : c'.sockets = Function.update c.sockets s o
  list : c'.localSocketList = c.localSocketList.erase s
  closing : c'.localSocketClosingList =
    if o.isSome then c.localSocketClosingList ++ [s] else c.localSocketClosingList.erase s
  transports : ∀ t, (c'.transports t).map (fun T => (T.pipesOpen, T.disconnects)) =
    (c.transports t).map fun T => (T.pipesOpen, T.disconnects.erase s)
  cut : c'.cut = c.cut
  packets : ∀ x, c.livePkts x = true → x ∉ addrs a.queue ∨ o.isSome = true →
    c'.livePkts x = true

theorem ASocket.left_some {a' : ASocket} (h : a.left = some a') : a'.kind = a.kind ∧
    a'.closing = true ∧ a'.queue = a.queue ∧ a'.peer = none ∧ a'.exitOnClose = a.exitOnClose ∧
    a.closing = false := by
  rw [ASocket.left] at h
  split at h
  · cases h
  · next hc =>
    obtain rfl := Option.some.inj h
    have hc : a.closing = false ∧ ¬a.queue.isEmpty = true := by simpa using hc
    exact ⟨rfl, rfl, rfl, rfl, rfl, hc.1⟩

namespace Store

/-- Detaching a socket changes nothing but peers. -/
theorem detach (h : Store c) (hs : c.sockets s = some a) :
    Store (c.putSock s (some { a with peer := none })) := by
  have hget {x : SockId} {d : ASocket}
      (hx : (c.putSock s (some { a with peer := none })).sockets x = some d) :
      ∃ d', c.sockets x = some d' ∧ d.kind = d'.kind ∧ d.queue = d'.queue ∧
        d.transport = d'.transport ∧ d.closing = d'.closing := by
    by_cases hxs : x = s
    · subst hxs
      obtain rfl : { a with peer := none } = d := by simpa [Core.putSock] using hx
      exact ⟨a, hs, rfl, rfl, rfl, rfl⟩
    · exact ⟨d, by simpa [Core.putSock, hxs] using hx, rfl, rfl, rfl, rfl⟩
  have hput {x : SockId} {d' : ASocket} (hx : c.sockets x = some d') :
      ∃ d, (c.putSock s (some { a with peer := none })).sockets x = some d ∧ d.kind = d'.kind ∧
        d.transport = d'.transport ∧ d.closing = d'.closing := by
    by_cases hxs : x = s
    · subst hxs
      obtain rfl : a = d' := Option.some.inj (hs.symm.trans hx)
      exact ⟨{ a with peer := none }, by simp [Core.putSock], rfl, rfl, rfl⟩
    · exact ⟨d', by simpa [Core.putSock, hxs] using hx, rfl, rfl, rfl⟩
  constructor
  · intro x
    refine (h.mem_list x).trans ?_
    constructor
    · rintro ⟨d', hx, hk, hc⟩
      obtain ⟨d, hd, hkd, -, hcd⟩ := hput hx
      exact ⟨d, hd, hkd ▸ hk, hcd ▸ hc⟩
    · rintro ⟨d, hx, hk, hc⟩
      obtain ⟨d', hd, hkd, -, -, hcd⟩ := hget hx
      exact ⟨d', hd, hkd ▸ hk, hcd ▸ hc⟩
  · intro x
    refine (h.mem_closing x).trans ?_
    constructor
    · rintro ⟨d', hx, hk, hc⟩
      obtain ⟨d, hd, hkd, -, hcd⟩ := hput hx
      exact ⟨d, hd, hkd ▸ hk, hcd ▸ hc⟩
    · rintro ⟨d, hx, hk, hc⟩
      obtain ⟨d', hd, hkd, -, -, hcd⟩ := hget hx
      exact ⟨d', hd, hkd ▸ hk, hcd ▸ hc⟩
  · exact h.nodup_list
  · exact h.nodup_closing
  · intro x d hx hk
    obtain ⟨d', hd, hkd, -, htd, -⟩ := hget hx
    rw [htd]
    exact h.remote hd (hkd ▸ hk)
  · intro t T hT
    refine ⟨(h.disconnects hT).1, fun x hx => ?_⟩
    obtain ⟨d', hd, hk, ht⟩ := (h.disconnects hT).2 x hx
    obtain ⟨d, hd, hkd, htd, -⟩ := hput hd
    exact ⟨d, hd, hkd.trans hk, htd.trans ht⟩
  · intro x d hx
    obtain ⟨d', hd, -, hq, -⟩ := hget hx
    rw [hq]
    exact h.queue hd
  · intro x x' d d' y hx hx' hy hy'
    obtain ⟨e, he, -, hq, -⟩ := hget hx
    obtain ⟨e', he', -, hq', -⟩ := hget hx'
    exact h.apart he he' (hq ▸ hy) (hq' ▸ hy')

/-- The nodes of a transport are those of its own remote sockets. -/
theorem not_mem_disconnects (h : Store c) (hs : c.sockets s = some a)
    (hk : a.kind = .remoteSocket → a.transport ≠ some t) {T : ATransport}
    (hT : c.transports t = some T) : s ∉ T.disconnects := by
  intro hm
  obtain ⟨d, hd, hkd, htd⟩ := (h.disconnects hT).2 s hm
  obtain rfl : a = d := Option.some.inj (hs.symm.trans hd)
  exact hk hkd htd

/-- Remote sockets and smart sockets are on no list. -/
theorem not_listed (h : Store c) (hs : c.sockets s = some a) (hk : a.kind.isEnd = false) :
    s ∉ c.localSocketList ∧ s ∉ c.localSocketClosingList := by
  constructor
  · intro hm
    obtain ⟨d, hd, hkd, -⟩ := (h.mem_list s).mp hm
    obtain rfl : a = d := Option.some.inj (hs.symm.trans hd)
    simp [hk] at hkd
  · intro hm
    obtain ⟨d, hd, hkd, -⟩ := (h.mem_closing s).mp hm
    obtain rfl : a = d := Option.some.inj (hs.symm.trans hd)
    simp [hk] at hkd

end Store

/-- What is left of a socket is closing and has no peer. -/
theorem Left.some {a' : ASocket} (h : Left a (some a')) :
    a'.kind = a.kind ∧ a'.closing = true ∧
    a'.peer = none ∧ a'.exitOnClose = a.exitOnClose := by
  rcases h with h | ⟨-, h⟩
  · obtain ⟨hk, hc, -, hp, hx, -⟩ := ASocket.left_some h.symm
    exact ⟨hk, hc, hp, hx⟩
  · cases h

theorem Gone.pipes (g : Gone c c' s a o) (t : TId) :
    (c'.transports t).map (·.pipesOpen) = (c.transports t).map (·.pipesOpen) := by
  simpa [Function.comp_def] using congrArg (Option.map Prod.fst) (g.transports t)

/-- **Closing a socket leaves a store**, if nothing is left of a remote or a smart socket. -/
theorem Gone.store (g : Gone c c' s a o) (h : Store c) (hs : c.sockets s = some a)
    (hleft : Left a o) (hend : a.kind.isEnd = false → o = none) : Store c' := by
  have ho (a' : ASocket) (ha' : o = some a') : a'.kind.isEnd = true ∧ a'.closing = true ∧
      a'.queue = a.queue ∧ a.closing = false := by
    rcases hleft with rfl | ⟨-, rfl⟩
    · obtain ⟨hk, hc, hq, -, -, hc'⟩ := ASocket.left_some ha'
      refine ⟨?_, hc, hq, hc'⟩
      by_contra hne
      rw [hk] at hne
      rw [hend (by simpa using hne)] at ha'
      cases ha'
    · cases ha'
  have hother {x : SockId} (hx : x ≠ s) : c'.sockets x = c.sockets x := by
    rw [g.sockets, Function.update_of_ne hx]
  have hself : c'.sockets s = o := by rw [g.sockets, Function.update_self]
  have hnc {a' : ASocket} (ha' : o = some a') : s ∉ c.localSocketClosingList := by
    intro hm
    obtain ⟨d, hd, -, hc⟩ := (h.mem_closing s).mp hm
    obtain rfl : a = d := Option.some.inj (hs.symm.trans hd)
    exact absurd hc (by simp [(ho a' ha').2.2.2])
  constructor
  · intro x
    rw [g.list, h.nodup_list.mem_erase_iff, h.mem_list]
    by_cases hx : x = s
    · subst hx
      rw [hself]
      refine iff_of_false (fun hm => hm.1 rfl) ?_
      rintro ⟨a', ha', -, hc⟩
      exact absurd (ho a' ha').2.1 (by simp [hc])
    · rw [hother hx]
      exact and_iff_right hx
  · intro x
    rw [g.closing]
    cases ho' : o with
    | none =>
        rw [if_neg (by simp), h.nodup_closing.mem_erase_iff, h.mem_closing]
        by_cases hx : x = s
        · subst hx
          rw [hself, ho']
          exact iff_of_false (fun hm => hm.1 rfl) (by simp)
        · rw [hother hx]
          exact and_iff_right hx
    | some a' =>
        rw [Option.isSome_some, if_pos rfl, List.mem_append, List.mem_singleton]
        by_cases hx : x = s
        · subst hx
          rw [hself]
          exact iff_of_true (.inr rfl) ⟨a', ho', (ho a' ho').1, (ho a' ho').2.1⟩
        · rw [hother hx, h.mem_closing]
          exact or_iff_left hx
  · rw [g.list]
    exact h.nodup_list.erase s
  · rw [g.closing]
    cases ho' : o with
    | none => exact h.nodup_closing.erase s
    | some a' =>
        refine List.nodup_append.mpr ⟨h.nodup_closing, by simp, fun x hx y hy => ?_⟩
        obtain rfl := List.mem_singleton.mp hy
        rintro rfl
        exact hnc ho' hx
  · intro x d hx hk
    have hxs : x ≠ s := by
      rintro rfl
      have hend := (ho d (hself.symm.trans hx)).1
      rw [hk] at hend
      cases hend
    obtain ⟨t, T, ht, hT⟩ := h.remote ((hother hxs).symm.trans hx) hk
    have hmap := g.transports t
    rw [hT, Option.map_some, Option.map_eq_some_iff] at hmap
    obtain ⟨T', hT', -⟩ := hmap
    exact ⟨t, T', ht, hT'⟩
  · intro t T' hT'
    have hmap := g.transports t
    rw [hT', Option.map_some, eq_comm, Option.map_eq_some_iff] at hmap
    obtain ⟨T, hT, heq⟩ := hmap
    obtain ⟨hnodup, hnodes⟩ := h.disconnects hT
    rw [← (Prod.mk.inj heq).2]
    refine ⟨hnodup.erase s, fun x hx => ?_⟩
    obtain ⟨hxs, hm⟩ := hnodup.mem_erase_iff.mp hx
    rw [hother hxs]
    exact hnodes x hm
  · intro x d hx
    by_cases hxs : x = s
    · subst hxs
      have hd := hself.symm.trans hx
      obtain ⟨hn, hl⟩ := h.queue hs
      rw [(ho d hd).2.2.1]
      exact ⟨hn, fun y hy => g.packets y (hl y hy) (.inr (by simp [hd]))⟩
    · have hd := (hother hxs).symm.trans hx
      obtain ⟨hn, hl⟩ := h.queue hd
      exact ⟨hn, fun y hy => g.packets y (hl y hy)
        (.inl fun hy' => hxs (h.apart hd hs hy hy'))⟩
  · -- the packets of each socket are among those it had
    have hbefore {x : SockId} {d : ASocket} (hx : c'.sockets x = some d) :
        ∃ d', c.sockets x = some d' ∧ d.queue = d'.queue := by
      by_cases hxs : x = s
      · subst hxs
        exact ⟨a, hs, (ho d (hself.symm.trans hx)).2.2.1⟩
      · exact ⟨d, (hother hxs).symm.trans hx, rfl⟩
    intro x x' d d' y hx hx' hy hy'
    obtain ⟨e, he, hq⟩ := hbefore hx
    obtain ⟨e', he', hq'⟩ := hbefore hx'
    exact h.apart he he' (hq ▸ hy) (hq' ▸ hy')

namespace Store

/-- What unlinking and destroying a local end relies on. -/
theorem endOk (h : Store c) (hs : c.sockets s = some a) : EndOk c s a where
  self := hs
  list x hx := by
    obtain ⟨d, hd, -⟩ := (h.mem_list x).mp hx
    simp [hd]
  closing x hx := by
    obtain ⟨d, hd, -⟩ := (h.mem_closing x).mp hx
    simp [hd]
  once hx hx' := by
    obtain ⟨d, hd, -, hc⟩ := (h.mem_list s).mp hx
    obtain ⟨d', hd', -, hc'⟩ := (h.mem_closing s).mp hx'
    obtain rfl : d = d' := Option.some.inj (hd.symm.trans hd')
    simp [hc] at hc'
  nodup := (h.queue hs).1
  live := (h.queue hs).2

/-- A local end without a peer is gone after the second half of `local_socket_close_locked`. -/
theorem wp_localEnd (h : Store c) (hs : c.sockets s = some a) (hk : a.kind.isEnd = true)
    (hp : a.peer = none) (hx : a.exitOnClose = false) :
    wp (localEnd s) (fun _ c' => Gone c c' s a a.left) (fun _ => False) c := by
  refine Adbd.wp_localEnd (h.endOk hs) hp (fun hc _ => (h.mem_list s).mpr ⟨a, hs, hk, hc⟩)
    (fun l _ => ?_) fun hx' => by simp [hx] at hx'
  have hfate : Close.fate ⟨s, a, none, .locked, l⟩ = a.left := by
    simp [Close.fate, ASocket.left]
  rw [Core.close_alone]
  refine ⟨?_, rfl, ?_, fun t => Option.map_congr fun T hT => ?_, rfl, fun x hl hx => ?_⟩
  · dsimp only
    rw [hfate]
  · dsimp only
    rw [hfate]
  · have hne : a.kind ≠ .remoteSocket := fun hr => by simp [hr, SockKind.isEnd] at hk
    rw [List.erase_of_not_mem (h.not_mem_disconnects hs (fun hr => absurd hr hne) hT)]
  · have hkept : x ∉ Close.freed ⟨s, a, none, .locked, l⟩ := by
      rcases hx with hx | hx
      · rw [Close.freed, List.nil_append]
        split
        · exact List.not_mem_nil
        · exact hx
      · simp [Close.freed, hfate, hx]
    exact (if_neg hkept).trans hl

end Store

/-- **A peer is closed** once it is detached: nothing but a local socket with unwritten packets
is left, unless the peer is remote and its transport's pipes are closed. -/
theorem Store.wp_closePeer {n : Nat} (h : Store c) (hq : c.sockets q = some b)
    (hp : b.peer = none) (hn : b.kind ≠ .localNotify) (ht : b.kind ≠ .jdwpTracker)
    (hx : b.exitOnClose = false) :
    wp (callCloseDepth (n + 1) q)
      (fun _ c' => ¬c.Shut b ∧
        ∃ o, Left b o ∧ (b.kind.isEnd = false → o = none) ∧ Gone c c' q b o)
      (fun _ => c.Shut b) c := by
  have hend (hk : b.kind ≠ .remoteSocket) : ¬c.Shut b := fun hsh => hk hsh.1
  have hgone {c' : Core} (hs : c'.sockets = Function.update c.sockets q none)
      (hl : c'.localSocketList = c.localSocketList.erase q)
      (hc : c'.localSocketClosingList = c.localSocketClosingList.erase q)
      (htr : ∀ t, (c'.transports t).map (fun T => (T.pipesOpen, T.disconnects)) =
        (c.transports t).map fun T => (T.pipesOpen, T.disconnects.erase q))
      (hcut : c'.cut = c.cut)
      (hlive : ∀ x, c.livePkts x = true → x ∉ addrs b.queue → c'.livePkts x = true) :
      Gone c c' q b none :=
    ⟨hs, hl, hc, htr, hcut, fun x hx hm => hlive x hx (hm.resolve_right (by simp))⟩
  cases hk : b.kind with
  | localNotify => exact absurd hk hn
  | jdwpTracker => exact absurd hk ht
  | localSocket =>
      rw [callCloseDepth, callCloseWith, wp_bind]
      refine (wp_getSock_of hq).mpr ?_
      simp only [hk, localSocketCloseLocked]
      rw [wp_bind]
      refine (wp_getSock_of hq).mpr ?_
      simp only [hp]
      refine wp_mono (h.wp_localEnd hq (by simp [hk, SockKind.isEnd]) hp hx)
        (fun _ c' g => ⟨hend (by simp [hk]), b.left, .inl rfl, ?_, g⟩) fun _ hf => hf.elim
      intro hfar
      cases hfar
  | jdwpSocket =>
      rw [callCloseDepth, callCloseWith, wp_bind]
      refine (wp_getSock_of hq).mpr ?_
      simp only [hk, jdwpSocketClose]
      rw [wp_bind]
      refine (wp_getSock_of hq).mpr ?_
      rw [wp_bind]
      refine wp_removeSocket (h.endOk hq).toListed fun id _ => ?_
      simp only [hp]
      refine (wp_freeSock_of (a := { b with id := id })
        (by simp [Core.unlisted, Core.putSock, hp, hk])).mpr ?_
      refine ⟨hend (by simp [hk]), none, .inr ⟨by simp [hk, SockKind.isLocal], rfl⟩,
        fun _ => rfl,
        hgone ?_ rfl rfl (fun t => Option.map_congr fun T hT => ?_) rfl fun x hl _ => hl⟩
      · simp [Core.unlisted, Core.putSock]
      · rw [List.erase_of_not_mem (h.not_mem_disconnects hq (fun hr => by simp [hk] at hr) hT)]
  | remoteSocket =>
      obtain ⟨t, T, hbt, hT⟩ := h.remote hq hk
      have hlists := h.not_listed hq (by simp [hk, SockKind.isEnd])
      have hnodes : ∀ x ∈ T.disconnects, c.sockets x ≠ none := by
        intro x hm
        obtain ⟨d, hd, -⟩ := (h.disconnects hT).2 x hm
        simp [hd]
      refine wp_closeRemote ⟨hq, hbt, hT, hnodes⟩ hk hp (fun ho => ?_)
        fun hc => ⟨hk, t, T, hbt, hT, hc⟩
      have hopen : ¬c.Shut b := by
        rintro ⟨-, t', T', ht', hT', hc⟩
        obtain rfl : t = t' := Option.some.inj (hbt.symm.trans ht')
        obtain rfl : T = T' := Option.some.inj (hT.symm.trans hT')
        simp [ho] at hc
      refine ⟨hopen, none, .inr ⟨by simp [hk, SockKind.isLocal], rfl⟩, fun _ => rfl,
        hgone ?_ ?_ ?_ (fun t' => ?_) rfl fun x hl _ => ?_⟩
      · rfl
      · exact (List.erase_of_not_mem hlists.1).symm
      · exact (List.erase_of_not_mem hlists.2).symm
      · by_cases ht' : t' = t
        · subst ht'
          simp [Core.putSock, Core.note, Core.putTransport, hT]
        · simp only [Core.putSock, Core.note, Core.putTransport, Core.newPkt,
            Function.update_of_ne ht']
          refine Option.map_congr fun T' hT' => ?_
          rw [List.erase_of_not_mem (h.not_mem_disconnects hq (fun _ hr => ?_) hT')]
          exact ht' (Option.some.inj (hr.symm.trans hbt))
      · simp only [Core.putSock, Core.note, Core.putTransport, Core.newPkt,
          Function.update_apply]
        split
        · rfl
        · exact hl
  | smartSocket =>
      have hlists := h.not_listed hq (by simp [hk, SockKind.isEnd])
      have hhead : ∀ x ∈ addrs b.queue.head?.toList, x ∈ addrs b.queue := by
        cases b.queue <;> simp
      refine wp_closeSmart hq hk hp (fun x hx => (h.queue hq).2 x (hhead x hx)) ?_
      refine ⟨hend (by simp [hk]), none, .inr ⟨by simp [hk, SockKind.isLocal], rfl⟩,
        fun _ => rfl,
        hgone rfl ?_ ?_ (fun t => Option.map_congr fun T hT => ?_) rfl fun x hl hx => ?_⟩
      · exact (List.erase_of_not_mem hlists.1).symm
      · exact (List.erase_of_not_mem hlists.2).symm
      · rw [List.erase_of_not_mem (h.not_mem_disconnects hq (fun hr => by simp [hk] at hr) hT)]
      · exact (if_neg fun hm => hx (hhead x hm)).trans hl

/-! ### One turn of the loop -/

/-- The other end of a stream is an end of it. -/
theorem Table.stream_of_peer (h : Table c) (hq : c.Stream s q) (hx : c.sockets x = some a)
    (hp : a.peer = some q) : c.Stream s x := by
  obtain ⟨-, b, hb, hpb⟩ := h.peer hx hp
  rcases hq with rfl | ⟨d, hd, hpd⟩
  · exact .inr ⟨b, hb, hpb⟩
  · obtain ⟨-, b', hb', hpb'⟩ := h.peer hd hpd
    obtain rfl : b = b' := Option.some.inj (hb.symm.trans hb')
    exact .inl (Option.some.inj (hpb.symm.trans hpb'))

/-- **What a turn does**: both ends of the stream of `s` are gone from the list, and nothing
else is changed. -/
structure Turn (c c' : Core) (s : SockId) : Prop where
  store : Store c'
  shorter : c'.localSocketList.length < c.localSocketList.length
  left : ∀ x, c.Stream s x → ∃ a, c.sockets x = some a ∧ Left a (c'.sockets x)
  frame : ∀ x, ¬c.Stream s x → c'.sockets x = c.sockets x
  pipes : ∀ t, (c'.transports t).map (·.pipesOpen) = (c.transports t).map (·.pipesOpen)
  cut : c'.cut = c.cut

namespace Turn

/-- A socket that has a peer, or is not closing, was not touched. -/
theorem frame_of (h : Turn c c' s) (hx : c'.sockets x = some a)
    (ho : a.closing = false ∨ a.peer ≠ none) : c.sockets x = some a ∧ ¬c.Stream s x := by
  have hn : ¬c.Stream s x := by
    intro hst
    obtain ⟨d, -, hleft⟩ := h.left x hst
    rw [hx] at hleft
    obtain ⟨-, hc, hp, -⟩ := hleft.some
    rcases ho with ho | ho
    · simp [hc] at ho
    · exact ho hp
  exact ⟨(h.frame x hn).symm.trans hx, hn⟩

/-- **A turn leaves a table.** -/
theorem table (h : Turn c c' s) (ht : Table c) : Table c' where
  toStore := h.store
  peer {x a q} hx hp := by
    obtain ⟨hx', hn⟩ := h.frame_of hx (.inr (by simp [hp]))
    obtain ⟨hne, b, hb, hpb⟩ := ht.peer hx' hp
    have hq : ¬c.Stream s q := fun hq => hn (ht.stream_of_peer hq hx' hp)
    exact ⟨hne, b, (h.frame q hq).trans hb, hpb⟩
  waiting {x a} hx hk := by
    by_contra hp
    exact hp (ht.waiting (h.frame_of hx (.inr hp)).1 hk)
  tracker {x a q b} hx hk hp hb := by
    obtain ⟨hx', hn⟩ := h.frame_of hx (.inr (by simp [hp]))
    have hq : ¬c.Stream s q := fun hq => hn (ht.stream_of_peer hq hx' hp)
    exact ht.tracker hx' hk hp ((h.frame q hq).symm.trans hb)

end Turn

/-- A turn for a socket without a peer. -/
theorem Gone.turn (g : Gone c c' s a a.left) (h : Store c) (ha : c.sockets s = some a)
    (hk : a.kind.isEnd = true) (hp : a.peer = none) (hs : s ∈ c.localSocketList) :
    Turn c c' s where
  store := g.store h ha (.inl rfl) fun hf => by simp [hk] at hf
  shorter := by
    rw [g.list, List.length_erase_of_mem hs]
    exact Nat.sub_lt (List.length_pos_of_mem hs) Nat.one_pos
  left := by
    rintro x (rfl | ⟨d, hd, hpd⟩)
    · rw [g.sockets, Function.update_self]
      exact ⟨a, ha, .inl rfl⟩
    · obtain rfl : a = d := Option.some.inj (ha.symm.trans hd)
      simp [hp] at hpd
  frame := by
    intro x hx
    rw [g.sockets, Function.update_of_ne fun hxs => hx (.inl hxs)]
  pipes := g.pipes
  cut := g.cut

/-- A turn for the two ends of a stream: first the peer is gone, detached, and then the
socket. -/
theorem Gone.turn_both {c₂ : Core} {o : Option ASocket} (ha : c.sockets s = some a)
    (hp : a.peer = some q) (hb : c.sockets q = some b) (hne : q ≠ s)
    (hs : s ∈ c.localSocketList) (hleft : Left { b with peer := none } o)
    (g : Gone (c.putSock q (some { b with peer := none })) c₂ q { b with peer := none } o)
    (g' : Gone (c₂.putSock s (some { a with peer := none })) c' s
      { a with peer := none } a.left)
    (hstore : Store c') : Turn c c' s where
  store := hstore
  shorter := by
    have hm : s ∈ c.localSocketList.erase q := (List.mem_erase_of_ne (Ne.symm hne)).mpr hs
    calc c'.localSocketList.length = ((c.localSocketList.erase q).erase s).length := by
          rw [g'.list]
          exact congrArg (fun l => (List.erase l s).length) g.list
      _ < (c.localSocketList.erase q).length := by
          rw [List.length_erase_of_mem hm]
          exact Nat.sub_lt (List.length_pos_of_mem hm) Nat.one_pos
      _ ≤ c.localSocketList.length := List.length_erase_le
  left := by
    rintro x (rfl | ⟨d, hd, hpd⟩)
    · refine ⟨a, ha, .inl ?_⟩
      rw [g'.sockets, Function.update_self]
    · obtain rfl : a = d := Option.some.inj (ha.symm.trans hd)
      obtain rfl : q = x := Option.some.inj (hp.symm.trans hpd)
      have hq : c'.sockets q = o := by
        rw [g'.sockets, Function.update_of_ne hne]
        simp [Core.putSock, hne, g.sockets]
      exact ⟨b, hb, hq.symm ▸ hleft⟩
  frame := by
    intro x hx
    have hxs : x ≠ s := fun hxs => hx (.inl hxs)
    have hxq : x ≠ q := by
      rintro rfl
      exact hx (.inr ⟨a, ha, hp⟩)
    rw [g'.sockets, Function.update_of_ne hxs]
    simp [Core.putSock, hxs, hxq, g.sockets]
  pipes := fun t => (g'.pipes t).trans (g.pipes t)
  cut := g'.cut.trans g.cut

/-- **A turn of the loop** closes the stream of its socket, unless this faces a closed pipe. -/
theorem Table.wp_turn {n : Nat} (h : Table c)
    (hexit : ∀ {s a}, c.sockets s = some a → a.exitOnClose = false)
    (hs : s ∈ c.localSocketList) :
    wp (localSocketCloseLocked (callCloseDepth (n + 1)) s)
      (fun _ c' => ¬c.FacesShut s ∧ Turn c c' s) (fun _ => c.FacesShut s) c := by
  obtain ⟨a, ha, hk, hc⟩ := (h.mem_list s).mp hs
  rw [localSocketCloseLocked, wp_bind]
  refine (wp_getSock_of ha).mpr ?_
  cases hp : a.peer with
  | none =>
      refine wp_mono (h.wp_localEnd ha hk hp (hexit ha))
        (fun _ c' g => ⟨?_, g.turn h.toStore ha hk hp hs⟩) fun _ hf => hf.elim
      rintro ⟨a', q, b, ha', hp', -⟩
      obtain rfl : a = a' := Option.some.inj (ha.symm.trans ha')
      simp [hp] at hp'
  | some q =>
      obtain ⟨hne, b, hb, hpb⟩ := h.peer ha hp
      have hstore := h.toStore.detach hb
      have hxa : a.exitOnClose = false := hexit ha
      have hxb : b.exitOnClose = false := hexit hb
      dsimp only
      rw [wp_bind]
      refine (wp_modSock_of hb).mpr ?_
      rw [wp_bind]
      refine wp_mono (hstore.wp_closePeer (q := q) (b := { b with peer := none })
        (by simp [Core.putSock]) rfl (fun hkb => ?_) (fun hkb => ?_)
        hxb) ?_ fun _ hsh =>
          ⟨a, q, b, ha, hp, hb, hsh⟩
      · simp [h.waiting hb hkb] at hpb
      · simp [h.tracker hb hkb hpb ha] at hk
      rintro - c₂ ⟨hopen, o, hleft, hend, g⟩
      have hstore₂ := g.store hstore (by simp [Core.putSock]) hleft hend
      have ha₂ : c₂.sockets s = some a := by
        rw [g.sockets, Function.update_of_ne (Ne.symm hne)]
        simp [Core.putSock, Ne.symm hne, ha]
      rw [wp_bind]
      refine (wp_modSock_of ha₂).mpr ?_
      have hstore₃ := hstore₂.detach ha₂
      have ha₃ : (c₂.putSock s (some { a with peer := none })).sockets s =
          some { a with peer := none } := by simp [Core.putSock]
      refine wp_mono (hstore₃.wp_localEnd ha₃ (by exact hk) rfl hxa) (fun _ c' g' => ⟨?_, ?_⟩)
        fun _ hf => hf.elim
      · rintro ⟨a', q', b', ha', hp', hb', hsh⟩
        obtain rfl : a = a' := Option.some.inj (ha.symm.trans ha')
        obtain rfl : q = q' := Option.some.inj (hp.symm.trans hp')
        obtain rfl : b = b' := Option.some.inj (hb.symm.trans hb')
        exact hopen hsh
      · exact Gone.turn_both ha hp hb hne hs hleft g g'
          (g'.store hstore₃ ha₃ (.inl rfl) fun hf => by simp [hk] at hf)

/-! ### The loop -/

namespace Turn

/-- A turn sets no `exit_on_close`. -/
theorem exitOnClose (h : Turn c c' s)
    (hexit : ∀ {x d}, c.sockets x = some d → d.exitOnClose = false) {x : SockId} {d : ASocket}
    (hx : c'.sockets x = some d) : d.exitOnClose = false := by
  by_cases hst : c.Stream s x
  · obtain ⟨a, ha, hleft⟩ := h.left x hst
    rw [hx] at hleft
    exact hleft.some.2.2.2.trans (hexit ha)
  · exact hexit ((h.frame x hst).symm.trans hx)

/-- The other streams keep both ends. -/
theorem farOf_eq (h : Turn c c' s) (ht : Table c) (hn : ¬c.Stream s x)
    (hx : c.sockets x = some a) :
    c'.farOf a = c.farOf a := by
  cases hp : a.peer with
  | none => simp [Core.farOf, hp]
  | some q =>
      have hq : ¬c.Stream s q := fun hq => hn (ht.stream_of_peer hq hx hp)
      simp [Core.farOf, hp, h.frame q hq]

theorem belongs_eq (h : Turn c c' s) (ht : Table c) (hn : ¬c.Stream s x) (t : TId) :
    c'.belongs t x = c.belongs t x := by
  rw [Core.belongs, Core.belongs, h.frame x hn]
  cases hx : c.sockets x with
  | none => rfl
  | some a => simp [h.farOf_eq ht hn hx]

theorem mem_list_iff (h : Turn c c' s) (ht : Table c) (hn : ¬c.Stream s x) :
    x ∈ c'.localSocketList ↔ x ∈ c.localSocketList := by
  rw [h.store.mem_list, ht.mem_list, h.frame x hn]

/-- The ends of the stream that was closed are off the list. -/
theorem not_stream (h : Turn c c' s) (hx : x ∈ c'.localSocketList) : ¬c.Stream s x := by
  obtain ⟨d, hd, -, hc⟩ := (h.store.mem_list x).mp hx
  exact (h.frame_of hd (.inl hc)).2

theorem shut_iff (h : Turn c c' s) : c'.Shut b ↔ c.Shut b := by
  refine and_congr_right fun _ => exists_congr fun t => ?_
  have hpipes := h.pipes t
  constructor
  · rintro ⟨T, ht, hT, hc⟩
    rw [hT, Option.map_some, eq_comm, Option.map_eq_some_iff] at hpipes
    obtain ⟨T', hT', heq⟩ := hpipes
    exact ⟨T', ht, hT', Core.canWrite_eq_false hc h.cut heq.symm⟩
  · rintro ⟨T, ht, hT, hc⟩
    rw [hT, Option.map_some, Option.map_eq_some_iff] at hpipes
    obtain ⟨T', hT', heq⟩ := hpipes
    exact ⟨T', ht, hT', Core.canWrite_eq_false hc h.cut.symm heq.symm⟩

theorem facesShut_iff (h : Turn c c' s) (ht : Table c) (hn : ¬c.Stream s x) :
    c'.FacesShut x ↔ c.FacesShut x := by
  rw [Core.FacesShut, Core.FacesShut, h.frame x hn]
  refine exists_congr fun a => exists_congr fun q => exists_congr fun b => ?_
  refine and_congr_right fun hx => and_congr_right fun hp => ?_
  have hq : ¬c.Stream s q := fun hq => hn (ht.stream_of_peer hq hx hp)
  rw [h.frame q hq, h.shut_iff]

/-- If the stream that was closed did not face a closed pipe, the others decide. -/
theorem hasShut_iff (h : Turn c c' s) (ht : Table c) (hs : s ∈ c.localSocketList)
    (hopen : ¬c.FacesShut s) : c'.HasShut t ↔ c.HasShut t := by
  constructor
  · rintro ⟨x, hx, hb, hsh⟩
    have hn := h.not_stream hx
    exact ⟨x, (h.mem_list_iff ht hn).mp hx, (h.belongs_eq ht hn t).symm.trans hb,
      (h.facesShut_iff ht hn).mp hsh⟩
  · rintro ⟨x, hx, hb, hsh⟩
    have hn : ¬c.Stream s x := by
      rintro (rfl | ⟨a, ha, hp⟩)
      · exact hopen hsh
      · -- the peer of `s` faces `s`, which is not remote
        obtain ⟨a', q, b, ha', hp', hb', hk, -⟩ := hsh
        obtain ⟨-, d, hd, hpd⟩ := ht.peer ha hp
        obtain rfl : a' = d := Option.some.inj (ha'.symm.trans hd)
        obtain rfl : q = s := Option.some.inj (hp'.symm.trans hpd)
        obtain ⟨e, he, hke, -⟩ := (ht.mem_list q).mp hs
        obtain rfl : b = e := Option.some.inj (hb'.symm.trans he)
        simp [hk, SockKind.isEnd] at hke
    exact ⟨x, (h.mem_list_iff ht hn).mpr hx, (h.belongs_eq ht hn t).trans hb,
      (h.facesShut_iff ht hn).mpr hsh⟩

/-- The sockets concerned after a turn were concerned before, and it did not touch them. -/
theorem concerns (h : Turn c c' s) (ht : Table c) (hx : c'.Concerns t x) :
    c.Concerns t x ∧ ¬c.Stream s x := by
  obtain ⟨y, hy, hb, hst⟩ := hx
  have hn := h.not_stream hy
  have hst' : c.Stream y x := by
    rwa [Core.Stream, ← h.frame y hn]
  refine ⟨⟨y, (h.mem_list_iff ht hn).mp hy, (h.belongs_eq ht hn t).symm.trans hb, hst'⟩,
    fun hsx => ?_⟩
  rcases hst' with rfl | ⟨a, ha, hp⟩
  · exact hn hsx
  · exact hn (ht.stream_of_peer hsx ha hp)

end Turn

/-- **A turn, and then the rest.** -/
theorem ClosedAll.cons (h' : ClosedAll t c' c'') (h : Turn c c' s) (ht : Table c)
    (hs : s ∈ c.localSocketList) (hb : c.belongs t s = true) : ClosedAll t c c'' where
  table := h'.table
  complete := h'.complete
  left x hx hbx a ha := by
    by_cases hst : c.Stream s x
    · -- closed in this turn, and not touched any more
      obtain ⟨a', ha', hleft⟩ := h.left x hst
      obtain rfl : a = a' := Option.some.inj (ha.symm.trans ha')
      rw [h'.frame x fun hc => (h.concerns ht hc).2 hst]
      refine ⟨hleft, ?_⟩
      cases hx' : c'.sockets x with
      | none => exact .inl rfl
      | some d =>
          rw [hx'] at hleft
          obtain ⟨hk, hc, -, -⟩ := hleft.some
          obtain ⟨e, he, hke, -⟩ := (ht.mem_list x).mp hx
          obtain rfl : a = e := Option.some.inj (ha.symm.trans he)
          refine .inr ((h'.table.mem_closing x).mpr ⟨d, ?_, hk ▸ hke, hc⟩)
          rw [h'.frame x fun hc => (h.concerns ht hc).2 hst, hx']
    · exact h'.left x ((h.mem_list_iff ht hst).mpr hx) ((h.belongs_eq ht hst t).trans hbx) a
        ((h.frame x hst).trans ha)
  frame x hx := by
    have hst : ¬c.Stream s x := fun hst => hx ⟨s, hs, hb, hst⟩
    exact (h'.frame x fun hc => hx (h.concerns ht hc).1).trans (h.frame x hst)

/-- **The restart loop** ends, since every turn makes the list shorter. -/
theorem Table.wp_closeAllLoop (h : Table c)
    (hexit : ∀ {s a}, c.sockets s = some a → a.exitOnClose = false) (t : TId) {n : Nat}
    (hn : c.localSocketList.length < n) :
    wp (closeAllLoop t n) (fun _ c' => ¬c.HasShut t ∧ ClosedAll t c c') (fun _ => c.HasShut t)
      c := by
  induction n generalizing c with
  | zero => exact absurd hn (Nat.not_lt_zero _)
  | succ n ih =>
      rw [closeAllLoop, wp_bind, wp_get, wp_bind, wp_firstOf]
      case hp =>
        intro s a q hs hp
        obtain ⟨-, b, hb, -⟩ := h.peer hs hp
        simp [hb]
      case hl =>
        intro x hx
        obtain ⟨a, ha, -⟩ := (h.mem_list x).mp hx
        simp [ha]
      cases hf : c.localSocketList.find? (c.belongs t) with
      | none =>
          have hnone (x : SockId) (hx : x ∈ c.localSocketList) : ¬c.belongs t x = true :=
            List.find?_eq_none.mp hf x hx
          refine ⟨?_, h, ?_, ?_, fun x _ => rfl⟩
          · rintro ⟨x, hx, hb, -⟩
            exact hnone x hx hb
          · exact fun x hx => by simpa using hnone x hx
          · exact fun x hx hb => absurd hb (hnone x hx)
      | some s =>
          have hs := List.mem_of_find?_eq_some hf
          have hb : c.belongs t s = true := List.find?_some hf
          dsimp only
          rw [wp_bind]
          refine wp_mono (h.wp_turn hexit hs) ?_ fun _ hsh => ⟨s, hs, hb, hsh⟩
          rintro - c' ⟨hopen, hturn⟩
          have hlen := hturn.shorter
          have hiff : c'.HasShut t ↔ c.HasShut t := hturn.hasShut_iff h hs hopen
          refine wp_mono (ih (hturn.table h) (hturn.exitOnClose hexit) (by omega)) ?_ ?_
          · rintro - c'' ⟨hsh, hall⟩
            exact ⟨fun hc => hsh (hiff.mpr hc), hall.cons hturn h hs hb⟩
          · exact fun _ => hiff.mp

/-- **`close_all_sockets` ends and has closed the sockets of `t`**, in any table of sockets and
for every transport, exactly if none of them faces a closed pipe. Peers may be of any kind but
for two pairs that `Table` leaves out, as no code makes them: a socket that waits for its
`OKAY` and has a peer, and a tracker whose peer is a local socket. -/
theorem close_all_iff (h : Table c)
    (hexit : ∀ {s a}, c.sockets s = some a → a.exitOnClose = false) (t : TId) :
    (∃ c', closeAllSockets t c = .ok ((), c') ∧ ClosedAll t c c') ↔ ¬c.HasShut t := by
  have hloop := h.wp_closeAllLoop hexit t (Nat.lt_succ_self _)
  have hrun : closeAllSockets t c = closeAllLoop t (c.localSocketList.length + 1) c := rfl
  rw [hrun]
  rw [wp] at hloop
  cases hr : closeAllLoop t (c.localSocketList.length + 1) c with
  | error f =>
      rw [hr] at hloop
      refine iff_of_false ?_ fun hn => hn hloop
      rintro ⟨_, hc, -⟩
      cases hc
  | ok r =>
      rw [hr] at hloop
      exact iff_of_true ⟨r.2, rfl, hloop.2⟩ hloop.1

/-! ### Tables the daemon reaches -/

/-- No socket has `exit_on_close`. -/
def Core.stays (c : Core) : Bool :=
  (List.range c.nextSock).all fun s => (c.sockets s).all fun a => !a.exitOnClose

/-- No socket is on a transport whose pipes are closed. -/
def Core.unshut (c : Core) : Bool :=
  (List.range c.nextSock).all fun s => (c.sockets s).all fun a =>
    a.transport.all fun t => (c.transports t).all (c.canWrite t)

theorem Core.exitOnClose_of_stays {H : List Nat} (hw : WF ⟨c, H⟩) (h : c.stays = true)
    {s : SockId} {a : ASocket} (hs : c.sockets s = some a) : a.exitOnClose = false := by
  have hall := List.all_eq_true.mp h s (List.mem_range.mpr (hw.graph.fresh hs))
  simpa [hs] using hall

theorem Core.not_hasShut {H : List Nat} (hw : WF ⟨c, H⟩) (h : c.unshut = true) :
    ¬c.HasShut t := by
  rintro ⟨s, -, -, a, q, b, -, -, hq, -, t', T, ht, hT, hc⟩
  have hall := List.all_eq_true.mp h q (List.mem_range.mpr (hw.graph.fresh hq))
  simp [hq, ht, hT, hc] at hall

/-- A remote has a shell open. -/
theorem close_all_shell : ∃ s, Reachable s ∧ s.core.localSocketList = [0] ∧
    ∃ c', closeAllSockets 0 s.core = .ok ((), c') ∧ ClosedAll 0 s.core c' := by
  obtain ⟨s, hs, hP⟩ := exists_reachable (connect 0 .usb ++ openShell 0 5 9)
    (P := fun s => decide (s.core.localSocketList = [0]) && s.core.stays && s.core.unshut)
    (by decide +kernel)
  obtain ⟨⟨hl, hstays⟩, hopen⟩ : (s.core.localSocketList = [0] ∧ s.core.stays = true) ∧
    s.core.unshut = true := by simpa using hP
  exact ⟨s, hs, hl, (close_all_iff hs.wf.table (Core.exitOnClose_of_stays hs.wf hstays) 0).mpr
    (Core.not_hasShut hs.wf hopen)⟩

/-- **The removal of a transport stops the daemon**, if the remote sent a `SYNC(0)` and opened
a shell after it: the pipes are closed, and `close_all_sockets` sends into them. -/
theorem close_all_shut : ∃ s, Reachable s ∧ Table s.core ∧
    (∀ x a, s.core.sockets x = some a → a.exitOnClose = false) ∧
      step s (.dispatch {}) = .error (.fault (.closedPipe 0)) ∧
        ¬∃ c', closeAllSockets 0 s.core = .ok ((), c') ∧ ClosedAll 0 s.core c' := by
  obtain ⟨s, hs, hP⟩ := exists_reachable (connect 0 .tcp ++ receive 0 A_SYNC 0 0 [] {} ++
      List.replicate 8 (.input 0 false) ++ greet 0 ++ openShell 0 7 5 ++
      List.replicate 4 (.output 0 none false) ++ [.select [(.registration, Events.onlyRead)]])
    (P := fun s => s.core.stays && decide (s.faults (.dispatch {}) = some (.closedPipe 0)) &&
      !(closeAllSockets 0 s.core).toBool) (by decide +kernel)
  obtain ⟨⟨hstays, hfault⟩, herr⟩ : (s.core.stays = true ∧
    s.faults (.dispatch {}) = some (.closedPipe 0)) ∧
      (closeAllSockets 0 s.core).toBool = false := by
    simpa using hP
  refine ⟨s, hs, hs.wf.table, fun _ _ => Core.exitOnClose_of_stays hs.wf hstays,
    System.step_of_faults hfault, ?_⟩
  rintro ⟨c', hc, -⟩
  rw [hc] at herr
  cases herr

end Adbd
