import Adbd.SocketGraph

/-!
# What the Event Loop Watches

The records of the event loop that belong to sockets and transports, against the sockets
and transports themselves: a record is installed exactly while its local socket is alive,
and a local socket is watched for `FDE_WRITE` exactly while it has something to write.

## Main definitions

* `Watched`: a record fits the socket it belongs to.
* `Watch`: all records do.

## Main results

* `Watch.op`: every operation keeps it.
-/

namespace Adbd

/-- The record `f` fits the socket it belongs to. -/
def Watched (f : Fdevent) (o : Option ASocket) : Prop :=
  (f.active = true ↔ ∃ a, o = some a ∧ a.kind.isLocal = true) ∧
    ∀ a, o = some a → a.kind.isLocal = true →
      (f.interest.write = true ↔ a.queue ≠ []) ∧ (f.events.write = true → a.queue ≠ [])

/-- **The records of the event loop fit the sockets.** -/
structure Watch (c : Core) : Prop where
  wf : c.loop.WF
  sock : ∀ s, Watched (c.loop.fdes (.sock s)) (c.sockets s)
  transport : ∀ t, (c.loop.fdes (.transport t)).active = true → c.transports t ≠ none

namespace Watched

variable {f : Fdevent} {o : Option ASocket} {a : ASocket}

/-- No record is installed for a socket that is not a local one. -/
theorem other (hf : f.active = false) (ha : ∀ a, o = some a → a.kind.isLocal = false) :
    Watched f o := by
  refine ⟨?_, fun a ho hk => ?_⟩
  · simp only [hf, Bool.false_eq_true, false_iff, not_exists, not_and]
    intro a ho
    simp [ha a ho]
  · simp [ha a ho] at hk

/-- The record of a local socket. -/
theorem local_iff (hk : a.kind.isLocal = true) : Watched f (some a) ↔
    f.active = true ∧ (f.interest.write = true ↔ a.queue ≠ []) ∧
      (f.events.write = true → a.queue ≠ []) := by
  simp [Watched, hk]

/-- A record that fits a socket fits it after a change of anything but its kind and queue. -/
theorem of_same {z : ASocket} (h : Watched f (some a)) (hk : z.kind.isLocal = a.kind.isLocal)
    (hq : z.queue = [] ↔ a.queue = []) : Watched f (some z) := by
  simpa [Watched, hk, hq] using h

end Watched

namespace Watch

variable {c c' : Core} {s : SockId} {a : ASocket}

/-- A record of a socket that is not a live local one is not installed. -/
theorem inactive (h : Watch c) (hs : ∀ a, c.sockets s = some a → a.kind.isLocal = false) :
    (c.loop.fdes (.sock s)).active = false := by
  cases ha : (c.loop.fdes (.sock s)).active with
  | false => rfl
  | true =>
      obtain ⟨a, hs', hk⟩ := (h.sock s).1.mp ha
      simp [hs a hs'] at hk

/-- A record that is not installed is not pending. -/
theorem not_pending (h : Watch c) {k : FdeId} (ha : (c.loop.fdes k).active = false) :
    (c.loop.fdes k).pending = false := by
  cases hp : (c.loop.fdes k).pending with
  | false => rfl
  | true => simp [h.wf.active k hp] at ha

/-- The operation changes at most the record and the socket of `s`, and removes no
transport. -/
theorem update (h : Watch c) (s : SockId) (hwf : c'.loop.WF)
    (hloop : ∀ k, k ≠ .sock s → c'.loop.fdes k = c.loop.fdes k)
    (hsock : ∀ x, x ≠ s → Watched (c.loop.fdes (.sock x)) (c'.sockets x))
    (hT : ∀ t, c.transports t ≠ none → c'.transports t ≠ none)
    (hs : Watched (c'.loop.fdes (.sock s)) (c'.sockets s)) : Watch c' where
  wf := hwf
  sock x := by
    by_cases hx : x = s
    · subst hx; exact hs
    · rw [hloop _ (by simpa using hx)]
      exact hsock x hx
  transport t ht := by
    rw [hloop _ (by simp)] at ht
    exact hT t (h.transport t ht)

/-- The operation leaves the loop alone. -/
theorem congr (h : Watch c) (hl : c'.loop = c.loop)
    (hs : ∀ x, Watched (c.loop.fdes (.sock x)) (c'.sockets x))
    (hT : ∀ t, c.transports t ≠ none → c'.transports t ≠ none) : Watch c' where
  wf := by rw [hl]; exact h.wf
  sock x := by rw [hl]; exact hs x
  transport t := by rw [hl]; exact fun ht => hT t (h.transport t ht)

/-- The operation leaves the loop and the sockets alone. -/
theorem congr' (h : Watch c) (hl : c'.loop = c.loop) (hs : c'.sockets = c.sockets)
    (hT : ∀ t, c.transports t ≠ none → c'.transports t ≠ none) : Watch c' :=
  h.congr hl (fun x => by rw [hs]; exact h.sock x) hT

/-- Replacing a transport removes none. -/
theorem putTransport_ne (c : Core) (t : TId) (T : ATransport) :
    ∀ t', c.transports t' ≠ none → (c.putTransport t (some T)).transports t' ≠ none := by
  intro t' h
  by_cases ht : t' = t
  · subst ht; simp [Core.putTransport]
  · simpa [Core.putTransport, ht] using h

theorem putTransport (h : Watch c) (t : TId) (T : ATransport) :
    Watch (c.putTransport t (some T)) :=
  h.congr' rfl rfl (putTransport_ne c t T)

theorem note (h : Watch c) (o : Obs) : Watch (c.note o) := h.congr' rfl rfl fun _ => id

theorem freePkts (h : Watch c) (l : List Nat) : Watch (c.freePkts l) :=
  h.congr' rfl rfl fun _ => id

theorem newPkt (h : Watch c) : Watch c.newPkt := h.congr' rfl rfl fun _ => id

theorem push (h : Watch c) (t : TId) (T : ATransport) (p : APacket) : Watch (c.push t T p) :=
  h.putTransport _ _

theorem sendNew (h : Watch c) (t : TId) (T : ATransport) (r : Option SockId)
    (f : Nat → APacket) : Watch (c.sendNew t T r f) :=
  (h.newPkt.push _ _ _).note _

/-- Changing a socket, but not its kind nor whether its queue is empty. -/
theorem putSock (h : Watch c) {a' : ASocket} (hs : c.sockets s = some a)
    (hk : a'.kind.isLocal = a.kind.isLocal)
    (hq : a.kind.isLocal = false ∨ (a'.queue = [] ↔ a.queue = [])) :
    Watch (c.putSock s (some a')) := by
  refine h.congr rfl (fun x => ?_) fun _ => id
  by_cases hx : x = s
  · subst hx
    simp only [Core.putSock, Function.update_self]
    have hw := h.sock x
    rw [hs] at hw
    rcases hq with hl | hq
    · refine .other (h.inactive fun b hb => ?_) fun b hb => ?_
      · obtain rfl : a = b := Option.some.inj (hs.symm.trans hb)
        exact hl
      · obtain rfl := Option.some.inj hb
        exact hk.trans hl
    · exact hw.of_same hk hq
  · simpa [Core.putSock, hx] using h.sock x

/-! ### Changes of interest -/

/-- Watching a socket for `FDE_READ`, or no longer: this does not touch `FDE_WRITE`. -/
theorem set (h : Watch c) (s : SockId) {ev : Events}
    (hev : ev.write = (c.loop.fdes (.sock s)).interest.write) :
    Watch (c.onLoop (·.fdeventSet (.sock s) ev)) := by
  refine h.update s (h.wf.set _) (fun k hk => Loop.fdeventSet_fdes_of_ne _ _ hk)
    (fun x _ => h.sock x) (fun _ => id) ?_
  obtain ⟨ha, -, -, hsub, -⟩ := Loop.fdeventSet_sub (k := FdeId.sock s) h.wf ev
  have hw := h.sock s
  refine ⟨?_, fun a hs hk => ⟨?_, fun he => ?_⟩⟩
  · simp only [Core.onLoop, ha]
    exact hw.1
  · simp only [Core.onLoop, Loop.fdeventSet_interest, hev]
    exact (hw.2 a hs hk).1
  · exact (hw.2 a hs hk).2 (hsub he)

theorem addRead (h : Watch c) (s : SockId) :
    Watch (c.onLoop (·.fdeventAdd (.sock s) Events.onlyRead)) :=
  h.set s (by simp [Events.union, Events.onlyRead])

theorem delRead (h : Watch c) (s : SockId) :
    Watch (c.onLoop (·.fdeventDel (.sock s) Events.onlyRead)) :=
  h.set s (by simp [Events.diff, Events.onlyRead])

/-- A packet is queued and the socket watched for `FDE_WRITE`. -/
theorem link (h : Watch c) {p : APacket} (hs : c.sockets s = some a)
    (hk : a.kind.isLocal = true) : Watch (c.link s a p) := by
  refine h.update s (h.wf.add _) (fun k hk => Loop.fdeventAdd_fdes_of_ne _ _ hk)
    (fun x hx => ?_) (fun _ => id) ?_
  · simpa [Core.link, Core.onLoop, Core.putSock, hx] using h.sock x
  · obtain ⟨ha, -⟩ := Loop.fdeventSet_sub (k := FdeId.sock s) h.wf
      ((c.loop.fdes (.sock s)).interest.union Events.onlyWrite)
    have hact := (h.sock s).1.mpr ⟨a, hs, hk⟩
    have hsock : (c.link s a p).sockets s = some { a with queue := a.queue ++ [p] } := by
      simp [Core.link, Core.onLoop, Core.putSock]
    rw [hsock]
    refine (Watched.local_iff (by exact hk)).mpr ⟨ha.trans hact, ?_, fun _ => by simp⟩
    simp [Core.link, Core.onLoop, Core.putSock, Events.union, Events.onlyWrite]

/-- The queue of a local socket changes, but does not become empty. -/
theorem drained (h : Watch c) {d : Drained} (hs : c.sockets s = some a)
    (hq : a.queue ≠ []) (hd : d.queue ≠ []) : Watch (c.drained s a d) := by
  have hput : Watch (c.putSock s (some { a with queue := d.queue })) :=
    h.putSock hs rfl (.inr (by simp [hq, hd]))
  exact hput.congr' rfl rfl fun _ => id

/-- The queue of a local socket is empty, and it is no longer watched for `FDE_WRITE`. -/
theorem drainedReady (h : Watch c) {d : Drained} (hs : c.sockets s = some a)
    (hk : a.kind.isLocal = true) (hd : d.queue = [])
    (he : (c.loop.fdes (.sock s)).events = {}) :
    Watch ((c.drained s a d).onLoop (·.fdeventDel (.sock s) Events.onlyWrite)) := by
  refine h.update s (h.wf.del _) (fun k hk => Loop.fdeventDel_fdes_of_ne _ _ hk)
    (fun x hx => ?_) (fun _ => id) ?_
  · simpa [Core.onLoop, Core.drained, Core.freePkts, Core.putSock, hx] using h.sock x
  · obtain ⟨ha, -⟩ := Loop.fdeventSet_sub (k := FdeId.sock s) h.wf
      ((c.loop.fdes (.sock s)).interest.diff Events.onlyWrite)
    have hact := (h.sock s).1.mpr ⟨a, hs, hk⟩
    have hev := Loop.fdeventSet_events_nil (k := FdeId.sock s) h.wf
      ((c.loop.fdes (.sock s)).interest.diff Events.onlyWrite) he
    have hsock :
      ((c.drained s a d).onLoop (·.fdeventDel (.sock s) Events.onlyWrite)).sockets s =
        some { a with queue := d.queue } := by
      simp [Core.onLoop, Core.drained, Core.freePkts, Core.putSock]
    rw [hsock]
    refine (Watched.local_iff (by exact hk)).mpr ⟨ha.trans hact, ?_, fun hw => ?_⟩
    · simp [Core.onLoop, Core.drained, Core.freePkts, Core.putSock, Events.diff,
        Events.onlyWrite, hd]
    · simp only [Core.onLoop, Core.drained, Core.freePkts, Core.putSock, Loop.fdeventDel] at hw
      simp [hev] at hw

/-! ### Sockets coming and going -/

/-- A new address has a record that is neither installed nor pending. -/
theorem fresh (h : Watch c) (hg : Graph c) {n : Nat} (hn : c.nextSock ≤ n) :
    (c.loop.fdes (.sock n)).active = false :=
  h.inactive fun a ha => by simp [hg.sockets_fresh hn] at ha

/-- A new local socket is installed and watched for `FDE_READ`. -/
theorem installed (h : Watch c) {n m : Nat} (hn : (c.loop.fdes (.sock n)).active = false)
    (hl : c'.loop = (c.loop.fdeventInstall (.sock n) m).fdeventAdd (.sock n) Events.onlyRead)
    (hs : ∃ a, c'.sockets n = some a ∧ a.kind.isLocal = true ∧ a.queue = [])
    (hx : ∀ x, x ≠ n → Watched (c.loop.fdes (.sock x)) (c'.sockets x))
    (hT : ∀ t, c.transports t ≠ none → c'.transports t ≠ none) : Watch c' := by
  obtain ⟨a, hs, hk, hq⟩ := hs
  have hwf : (c.loop.fdeventInstall (.sock n) m).WF := h.wf.install m (h.not_pending hn)
  refine h.update n (by rw [hl]; exact hwf.add _) (fun k hk => ?_) hx hT ?_
  · rw [hl, Loop.fdeventAdd_fdes_of_ne _ _ hk, Loop.fdeventInstall_fdes_of_ne _ _ hk]
  · obtain ⟨ha, -, -, hw, -⟩ := Loop.fdeventSet_sub (k := FdeId.sock n) hwf
      (((c.loop.fdeventInstall (.sock n) m).fdes (.sock n)).interest.union Events.onlyRead)
    rw [hs, hl, Watched.local_iff hk]
    refine ⟨?_, ?_, fun he => ?_⟩
    · exact ha.trans (by simp [Loop.fdeventInstall_fdes_self])
    · simp [Loop.fdeventInstall_fdes_self, hq, Events.union, Events.onlyRead]
    · have := hw he
      simp [Loop.fdeventInstall_fdes_self] at this

theorem accept (h : Watch c) (hg : Graph c) (fd : Nat) : Watch (c.accept fd) := by
  refine h.installed (h.fresh hg (Nat.le_refl _)) rfl
    (by simp [Core.accept, SockKind.isLocal]) (fun x hx => ?_) fun _ => id
  by_cases hx' : x = c.nextSock + 1
  · subst hx'
    refine .other (h.fresh hg (Nat.le_succ _)) ?_
    simp [Core.accept, SockKind.isLocal]
  · simpa [Core.accept, hx, hx'] using h.sock x

theorem openStream (h : Watch c) (hg : Graph c) (d : Open) (hk : d.kind.isEnd = true)
    (hn : d.kind ≠ .localNotify) : Watch (c.openStream d) := by
  have hT : ∀ t, c.transports t ≠ none → (c.openStream d).transports t ≠ none := by
    intro t ht
    by_cases htd : t = d.t
    · subst htd; simp [Core.openStream]
    · simpa [Core.openStream, htd] using ht
  have hother : ∀ x, x ≠ c.nextSock →
      Watched (c.loop.fdes (.sock x)) ((c.openStream d).sockets x) := by
    intro x hx
    by_cases hx' : x = c.nextSock + 1
    · subst hx'
      refine .other (h.fresh hg (Nat.le_succ _)) ?_
      simp [Core.openStream, SockKind.isLocal]
    · simpa [Core.openStream, hx, hx'] using h.sock x
  have hfresh := h.fresh hg (Nat.le_refl _)
  by_cases hl : d.kind = .localSocket
  · exact h.installed hfresh (m := d.fd) (by simp [Core.openStream, hl])
      (by simp [Core.openStream, hl, SockKind.isLocal]) hother hT
  · refine h.congr (by simp [Core.openStream, hl]) (fun x => ?_) hT
    by_cases hx : x = c.nextSock
    · subst hx
      refine .other hfresh fun a ha => ?_
      obtain rfl : _ = a := by simpa [Core.openStream] using ha
      revert hk hn hl
      cases d.kind <;> simp [SockKind.isLocal, SockKind.isEnd]
    · exact hother x hx

theorem attach (h : Watch c) (hg : Graph c) {id : UInt32} {t : TId} {T : ATransport}
    {m : AMessage} (hs : c.sockets s = some a) (hk : a.kind.isLocal = true) :
    Watch (c.attach s a id t T m) := by
  refine (h.addRead s).congr rfl (fun x => ?_) (fun t' ht => ?_)
  · have hw := (h.addRead s).sock x
    by_cases hx : x = s
    · subst hx
      have hw' : Watched _ (some a) := hs ▸ hw
      have hnew := hw'.of_same (z := { a with kind := .localSocket, peer := some c.nextSock })
        (by rw [hk]; rfl) Iff.rfl
      simpa [Core.attach] using hnew
    · by_cases hx' : x = c.nextSock
      · subst hx'
        refine .other ?_ ?_
        · exact (h.addRead s).inactive fun b hb => by
            have := hg.sockets_fresh (Nat.le_refl _)
            simp [Core.onLoop, this] at hb
        · simp [Core.attach, hx, SockKind.isLocal]
      · simpa [Core.attach, hx, hx'] using hw
  · by_cases htt : t' = t
    · subst htt; simp [Core.attach]
    · simpa [Core.attach, htt] using ht

/-- A far end is not a local socket, so losing it changes no record. -/
theorem far_gone (h : Watch c) (hg : Graph c) {q : SockId} (hs : c.sockets s = some a)
    (hk : a.kind.isEnd = true) (hp : a.peer = some q) :
    (c.loop.fdes (.sock q)).active = false := by
  obtain ⟨b, hb, -, hf⟩ := hg.peer hs hp
  refine h.inactive fun b' hb' => ?_
  obtain rfl : b = b' := Option.some.inj (hb.symm.trans hb')
  revert hf hk
  cases a.kind <;> cases b.kind <;> simp [SockKind.Faces, SockKind.isEnd, SockKind.isLocal]

theorem close (h : Watch c) (hg : Graph c) {d : Close} (hs : c.sockets d.sock = some d.self)
    (hk : d.self.kind.isEnd = true) (hp : d.self.peer = d.far.map (·.1)) :
    Watch (c.close d) := by
  have hT : ∀ t, c.transports t ≠ none → (c.close d).transports t ≠ none := by
    intro t ht
    simpa [Core.close] using ht
  have hother : ∀ x, x ≠ d.sock → Watched (c.loop.fdes (.sock x)) ((c.close d).sockets x) := by
    intro x hx
    by_cases hxf : d.far.map (·.1) = some x
    · refine .other (h.far_gone hg hs hk (hp.trans hxf)) fun a ha => ?_
      simp [Core.close, hx, hxf] at ha
    · simpa [Core.close, hx, hxf] using h.sock x
  have hsock : (c.close d).sockets d.sock = d.fate := by simp [Core.close]
  have hloop : (c.close d).loop = d.loop c.loop := rfl
  cases hf : d.fate with
  | some a' =>
      -- the socket goes on the closing list and is no longer watched for `FDE_READ`
      have hl : d.loop c.loop = c.loop.fdeventDel (.sock d.sock) Events.onlyRead := by
        simp [Close.loop, hf]
      have hdel := h.delRead d.sock
      refine hdel.update d.sock (by rw [hloop, hl]; exact hdel.wf)
        (fun k _ => by rw [hloop, hl]; rfl) (fun x hx => ?_) hT ?_
      · have hne : FdeId.sock x ≠ .sock d.sock := by simpa using hx
        simpa [Loop.fdeventDel_fdes_of_ne _ _ hne] using hother x hx
      · rw [hsock, hloop, hl, hf]
        have hw : Watched _ (some d.self) := hs ▸ hdel.sock d.sock
        have hdead : ¬(d.self.closing || d.self.queue.isEmpty) = true := by
          intro hd
          simp [Close.fate, hd] at hf
        have hk' : d.self.kind.isLocal = true := by
          rcases (hg.shape hs).queue with hl | hq | ⟨hss, -⟩
          · exact hl
          · simp [hq] at hdead
          · simp [hss, SockKind.isEnd] at hk
        obtain rfl : _ = a' := by simpa [Close.fate, hdead] using hf
        refine hw.of_same ?_ Iff.rfl
        split
        · rfl
        · exact hk'.symm
  | none =>
      by_cases hrem : d.self.kind.isLocal || d.how = .locked
      · have hl : d.loop c.loop = c.loop.fdeventRemove (.sock d.sock) := by
          simp only [Close.loop, hf, Option.isSome_none, Bool.false_eq_true, if_false]
          rw [if_pos hrem]
        refine h.update d.sock (by rw [hloop, hl]; exact h.wf.remove _)
          (fun k hk => by rw [hloop, hl]; exact Loop.fdeventRemove_fdes_of_ne _ hk)
            hother hT ?_
        rw [hsock, hloop, hl, hf, Loop.fdeventRemove_fdes_self]
        exact .other rfl (by simp)
      · have hl : d.loop c.loop = c.loop := by
          simp only [Close.loop, hf, Option.isSome_none, Bool.false_eq_true, if_false]
          rw [if_neg hrem]
        refine h.congr (hloop.trans hl) (fun x => ?_) hT
        by_cases hx : x = d.sock
        · subst hx
          rw [hsock, hf]
          refine .other (h.inactive fun b hb => ?_) (by simp)
          obtain rfl : d.self = b := Option.some.inj (hs.symm.trans hb)
          simp only [Bool.or_eq_true, not_or, Bool.not_eq_true] at hrem
          exact hrem.1
        · exact hother x hx

/-- A drained closing socket is destroyed. -/
theorem drainDestroy (h : Watch c) {d : Drained} {notes : List Obs}
    (hk : a.kind.isLocal = true) (hc : a.closing = true) :
    Watch ((c.drained s a d).close
      { sock := s, self := { a with queue := d.queue }, far := none, how := .call,
        notes }) := by
  refine h.update s ?_ (fun k hk' => ?_) (fun x hx => ?_) (fun t ht => ?_) ?_
  · simpa [Core.close, Close.loop, Close.fate, hc, hk] using h.wf.remove (.sock s)
  · simpa [Core.close, Close.loop, Close.fate, hc, hk] using
      Loop.fdeventRemove_fdes_of_ne c.loop hk'
  · simpa [Core.close, Core.drained, Core.freePkts, Core.putSock, hx] using h.sock x
  · simpa [Core.close, Core.drained, Core.freePkts, Core.putSock] using ht
  · refine .other ?_ ?_
    · simp [Core.close, Close.loop, Close.fate, hc, hk, Loop.fdeventRemove_fdes_self]
    · simp [Core.close, Close.fate, hc]

theorem rig (h : Watch c) (hg : Graph c) {ss : SockId} {b : ASocket} {t : TId} {T : ATransport}
    {p : Nat → APacket} (hs : c.sockets s = some a) (hp : a.peer = some ss)
    (hb : c.sockets ss = some b) (hk : b.kind = .smartSocket) :
    Watch (c.rig s a ss b t T p) := by
  refine h.congr rfl (fun x => ?_) (fun t' ht => ?_)
  · obtain ⟨b', hb', -, hf⟩ := hg.peer hs hp
    obtain rfl : b = b' := Option.some.inj (hb.symm.trans hb')
    have hka : a.kind = .localSocket := by
      revert hf
      rw [hk]
      cases a.kind <;> simp [SockKind.Faces, SockKind.isEnd]
    by_cases hx : x = s
    · subst hx
      have hw : Watched _ (some a) := hs ▸ h.sock x
      have hnew :=
        hw.of_same (z := { a with kind := .localNotify, peer := none, transport := some t })
        (by rw [hka]; rfl) Iff.rfl
      simpa [Core.rig] using hnew
    · by_cases hx' : x = ss
      · subst hx'
        refine .other (h.far_gone hg hs (by rw [hka]; rfl) hp) ?_
        simp [Core.rig, hx]
      · simpa [Core.rig, hx, hx'] using h.sock x
  · by_cases htt : t' = t
    · subst htt; simp [Core.rig]
    · simpa [Core.rig, htt] using ht

/-! ### The loop itself -/

theorem select (h : Watch c) {rs : List (FdeId × Events)}
    (hr : ∀ r ∈ rs, (c.loop.fdes r.1).active = true ∧
      (r.2.Subset (c.loop.fdes r.1).interest ∨ r.2 = Events.onlyRead)) :
    Watch (c.onLoop (·.fdeventProcess rs)) where
  wf := h.wf.process rs fun r hm => (hr r hm).1
  sock s := by
    obtain ⟨ha, hi, -, -, hw, -⟩ := Loop.fdeventProcess_fdes c.loop rs (.sock s)
    have hs := h.sock s
    refine ⟨?_, fun a hsa hk => ⟨?_, fun he => ?_⟩⟩
    · simp only [Core.onLoop_loop, ha]
      exact hs.1
    · simp only [Core.onLoop_loop, hi]
      exact (hs.2 a hsa hk).1
    · rcases hw he with he | ⟨r, hm, rfl', hrw⟩
      · exact (hs.2 a hsa hk).2 he
      · rcases (hr r hm).2 with hsub | honly
        · rw [rfl'] at hsub
          exact (hs.2 a hsa hk).1.mp (hsub.2.1 hrw)
        · simp [honly, Events.onlyRead] at hrw
  transport t ht := by
    obtain ⟨ha, -⟩ := Loop.fdeventProcess_fdes c.loop rs (.transport t)
    simp only [Core.onLoop_loop, ha] at ht
    exact h.transport t ht

/-- Replacing a record by one with the same installation, interest and mark, and with no
new `FDE_WRITE` event. -/
theorem put (h : Watch c) {k : FdeId} {f : Loop FdeId → Loop FdeId} (hwf : (f c.loop).WF)
    (hf : ∀ j, j ≠ k → (f c.loop).fdes j = c.loop.fdes j)
    (hk : ((f c.loop).fdes k).active = (c.loop.fdes k).active ∧
      ((f c.loop).fdes k).interest = (c.loop.fdes k).interest ∧
      (((f c.loop).fdes k).events.write = true → (c.loop.fdes k).events.write = true)) :
    Watch (c.onLoop f) where
  wf := hwf
  sock s := by
    by_cases hs : FdeId.sock s = k
    · subst hs
      have hs := h.sock s
      refine ⟨?_, fun a hsa hka => ⟨?_, fun he => ?_⟩⟩
      · simp only [Core.onLoop_loop, hk.1]
        exact hs.1
      · simp only [Core.onLoop_loop, hk.2.1]
        exact (hs.2 a hsa hka).1
      · exact (hs.2 a hsa hka).2 (hk.2.2 he)
    · simpa [hf _ hs] using h.sock s
  transport t ht := by
    by_cases hs : FdeId.transport t = k
    · subst hs
      simp only [Core.onLoop_loop, hk.1] at ht
      exact h.transport t ht
    · simp only [Core.onLoop_loop, hf _ hs] at ht
      exact h.transport t ht

/-- **Every operation keeps the records of the event loop fitting the sockets.** -/
theorem op {w : Work} {o : Op} (h : Watch w.core) (hgr : Graph w.core) (hg : o.Guard w) :
    Watch (o.apply w).core := by
  rw [Op.apply_core]
  cases o with dsimp only [Op.effect]
  | io | pids => exact h.congr' rfl rfl fun _ => id
  | note | deliver => exact h.note _
  | newPkt => exact h.newPkt
  | freePkt => exact h.freePkts _
  | lose => exact h
  | select rs => exact h.select hg.2
  | take k =>
      obtain ⟨rest, hp⟩ := hg
      have htail : w.core.loop.pending.tail = rest := by rw [hp]; rfl
      refine h.put (k := k) (by rw [htail]; exact h.wf.take hp) (fun j hj => ?_) ?_
      · exact Loop.put_fdes_of_ne _ _ hj
      · simp [Loop.fdeventTake]
  | force k =>
      refine h.put (k := k) (h.wf.put rfl (h.wf.events k) (h.wf.active k)) (fun j hj => ?_) ?_
      · exact Loop.put_fdes_of_ne _ _ hj
      · simp
  | pendRead k =>
      have hp : (w.core.loop.fdes k).pending = true := hg
      refine h.put (k := k) (h.wf.put rfl (by simp [hp]) fun _ => h.wf.active k hp)
        (fun j hj => ?_) ?_
      · exact Loop.put_fdes_of_ne _ _ hj
      · simp [Events.union, Events.onlyRead]
  | readOff s => exact h.delRead s
  | ready s t m => exact (h.note _).addRead s
  | wrteFail => exact (((h.note _).note _).note _).note _
  | unlink t =>
      refine ⟨h.wf.remove _, fun s => ?_, fun t' ht => ?_⟩
      · have hne : FdeId.sock s ≠ .transport t := by simp
        simpa [Loop.fdeventRemove_fdes_of_ne _ hne] using h.sock s
      · by_cases htt : t' = t
        · subst htt
          simp [Loop.fdeventRemove_fdes_self] at ht
        · have hne : FdeId.transport t' ≠ .transport t := by simpa using htt
          simp only [Core.onLoop_loop, Loop.fdeventRemove_fdes_of_ne _ hne] at ht
          exact h.transport t' ht
  | send t T p => exact (h.push t T p).note _
  | sendList s t T p => exact (h.push t T p).note _
  | readWrte s a t T p => exact ((h.push t T p).note _).delRead s
  | conn t T online state quals => exact h.putTransport t _
  | popMain t T p rest => exact h.putTransport t _
  | popIo t T p rest => exact h.putTransport t _
  | post t T p => exact h.putTransport t _
  | closePipes t T => exact h.putTransport t _
  | register t type =>
      have hnone : w.core.transports t = none := hg
      have hact : (w.core.loop.fdes (.transport t)).active = false := by
        cases ha : (w.core.loop.fdes (.transport t)).active with
        | false => rfl
        | true => exact absurd hnone (h.transport t ha)
      have hwf := h.wf.install 0 (h.not_pending hact)
      refine ⟨hwf.set _, fun s => ?_, fun t' ht => ?_⟩
      · have hne : FdeId.sock s ≠ .transport t := by simp
        simpa [Loop.fdeventSet_fdes_of_ne _ _ hne, Loop.fdeventInstall_fdes_of_ne _ _ hne,
          Core.putTransport] using h.sock s
      · by_cases htt : t' = t
        · subst htt; simp [Core.putTransport]
        · have hne : FdeId.transport t' ≠ .transport t := by simpa using htt
          simp only [Core.onLoop_loop, Loop.fdeventSet_fdes_of_ne _ _ hne,
            Loop.fdeventInstall_fdes_of_ne _ _ hne] at ht
          simpa [Core.putTransport, htt] using h.transport t' ht
  | unregister t T =>
      refine ⟨h.wf, h.sock, fun t' ht => ?_⟩
      by_cases htt : t' = t
      · subst htt
        exact absurd ht (by simp [hg.2.2, Core.putTransport])
      · simpa [Core.putTransport, htt] using h.transport t' ht
  | flags s a pass needUpdate => exact h.putSock hg.1 rfl (.inr Iff.rfl)
  | choose s b t => exact h.putSock hg.1 rfl (.inr Iff.rfl)
  | collectFirst s b p =>
      exact h.putSock hg.1 rfl (.inl (by rw [hg.2.1]; rfl))
  | collectMore s b p =>
      exact h.putSock hg.1 rfl (.inl (by rw [hg.2.1]; rfl))
  | accept fd => exact h.accept hgr fd
  | rig s a ss b t T p =>
      obtain ⟨hs, hp, hb, hk, -⟩ := hg
      exact h.rig hgr hs hp hb hk
  | openStream d => exact h.openStream hgr d hg.1 hg.2.1
  | attach s a id t T m => exact h.attach hgr hg.1 hg.2.1
  | wrteQueue t s a m p => exact ((h.note _).note _).link hg.1 hg.2.1
  | wrteBlock t s a m p bs => exact (((h.note _).note _).note _).link hg.1 hg.2.1
  | wrteDone t s a T m p =>
      exact sendNew (freePkts ((((h.note _).note _).note _).note _) _) _ _ _ _
  | drain s a d =>
      obtain ⟨hs, -, ⟨ws, rfl⟩, hv, -⟩ := hg
      have hq : a.queue ≠ [] := by
        intro hq
        rw [hq] at hv
        exact hv rfl
      have hd := h.drained hs hq fun hq' => hv ((drain_drained_iff ws a.queue).mpr hq')
      split
      · exact hd.note _
      · exact hd
  | drainDestroy s a d notes => exact h.drainDestroy hg.2.1 hg.2.2.2.2.1
  | drainReady s a d far =>
      obtain ⟨hs, hk, ⟨ws, rfl⟩, hv, -, he, q, b, -, -, hfar⟩ := hg
      have hd := h.drainedReady hs (by rw [hk]; rfl) ((drain_drained_iff ws a.queue).mp hv) he
      rcases hfar with ⟨-, rfl⟩ | ⟨-, t, T, -, -, rfl⟩
      · exact hd
      · exact hd.sendNew _ _ _ _
  | close d => exact h.close hgr hg.1 hg.2.1 hg.2.2.1

end Watch

end Adbd
