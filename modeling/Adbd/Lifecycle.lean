import Adbd.Steps

/-!
# The Life of a Transport

A transport is registered through a message to the main loop, served by two threads, and
removed through another message that the thread dropping the last reference posts. Here
the counters of `struct atransport` are followed through every interleaving of the two
threads with the main loop, together with what the main loop knows of the transport: the
entry of `transport_list`, the record of the event loop, and the object itself.

The invariant is local to a transport: `Life.Ok` relates the counters to where the two
threads stand, and `Tracked` relates the life to the registration pipe and the memory.

## Main definitions

* `Life.Ok`: the counters of a started transport.
* `Tracked`, `Lives`: the invariant.

## Main results

* `Lives.step`: every step keeps the invariant.
* `Reachable.wf`, `Reachable.lives`: every reachable state is consistent.
* `transport_lifecycle`: the reference count goes 2, 1, 0; one kick, one close, one remove
  message; the transport is freed after the threads are done and leaves nothing behind.
-/

namespace Adbd

open Program Custody

variable {c c' : Core} {s s' : System} {a : Action} {t : TId} {l : Life}

/-! ### Operations and registration -/

namespace Core.SameTransports

theorem of_eq (hl : c'.transportList = c.transportList) (hT : c'.transports = c.transports)
    (hf : ∀ t, c'.loop.fdes (.transport t) = c.loop.fdes (.transport t)) :
    c.SameTransports c' :=
  ⟨hl, fun t => by rw [hT], fun t => by rw [hf]⟩

theorem put {T T' : ATransport} (hT : c.transports t = some T)
    (hl : c'.transportList = c.transportList)
    (hT' : c'.transports = Function.update c.transports t (some T'))
    (hf : ∀ t, c'.loop.fdes (.transport t) = c.loop.fdes (.transport t)) :
    c.SameTransports c' := by
  refine ⟨hl, fun x => ?_, fun x => by rw [hf]⟩
  rw [hT']
  by_cases hx : x = t
  · subst hx
    simp [hT]
  · simp [hx]

/-- Sending a packet registers and removes no transport. -/
theorem sendNew {T : ATransport} (hT : c.transports t = some T) (r : Option SockId)
    (f : Nat → APacket) : c.SameTransports (c.sendNew t T r f) :=
  put hT rfl rfl fun _ => rfl

end Core.SameTransports

/-- The operations by which transports come and go. -/
def Op.Registers : Op → Prop
  | .register .. | .unlink .. | .unregister .. => True
  | _ => False

/-- Every other operation leaves the registered transports alone. -/
theorem Op.sameTransports {w : Work} {o : Op} (hg : o.Guard w) (h : ¬o.Registers) :
    w.core.SameTransports (o.effect w.core) := by
  have hadd (x : SockId) (ev : Events) (l : Loop FdeId) (t : TId) :
      (l.fdeventAdd (.sock x) ev).fdes (.transport t) = l.fdes (.transport t) :=
    l.fdeventAdd_fdes_of_ne ev (by simp)
  have hdel (x : SockId) (ev : Events) (l : Loop FdeId) (t : TId) :
      (l.fdeventDel (.sock x) ev).fdes (.transport t) = l.fdes (.transport t) :=
    l.fdeventDel_fdes_of_ne ev (by simp)
  have hinst (x : SockId) (fd : Nat) (l : Loop FdeId) (t : TId) :
      (l.fdeventInstall (.sock x) fd).fdes (.transport t) = l.fdes (.transport t) :=
    l.fdeventInstall_fdes_of_ne fd (by simp)
  cases o with dsimp only [Op.effect]
  | register | unlink | unregister => exact absurd trivial h
  | io | pids | note | deliver | newPkt | freePkt | lose | flags | collectFirst | collectMore
  | choose | wrteFail => exact .of_eq rfl rfl fun _ => rfl
  | select rs =>
      exact ⟨rfl, fun _ => .rfl, fun t => (w.core.loop.fdeventProcess_fdes rs _).1⟩
  | take k | force k | pendRead k =>
      refine ⟨rfl, fun _ => .rfl, fun t => ?_⟩
      by_cases hk : k = .transport t
      · subst hk
        simp [Core.onLoop, Loop.fdeventTake]
      · simp [Core.onLoop, Loop.fdeventTake, Loop.put_fdes_of_ne _ _ (Ne.symm hk)]
  | send t T p | sendList _ t T p => exact .put hg.1 rfl rfl fun _ => rfl
  | accept fd => exact .of_eq rfl rfl fun t => (hadd ..).trans (hinst ..)
  | rig x d y e t T p => exact .put hg.2.2.2.2.2.1 rfl rfl fun _ => rfl
  | readOff x => exact .of_eq rfl rfl fun t => hdel ..
  | openStream d =>
      refine .put hg.2.2 rfl rfl fun t => ?_
      simp only [Core.openStream]
      split
      · exact (hadd ..).trans (hinst ..)
      · rfl
  | attach x d id t T m => exact .put hg.2.2.2.2 rfl rfl fun t => hadd ..
  | ready x t m | wrteQueue t x d m p | wrteBlock t x d m p bs =>
      exact .of_eq rfl rfl fun t => hadd ..
  | wrteDone t x d T m p =>
      refine .trans ?_ (.sendNew (by exact hg.2.2.2.2.2) _ _)
      dsimp only [Core.freePkts, Core.note]
      exact .of_eq rfl rfl fun _ => rfl
  | drain x d e => split <;> exact .of_eq rfl rfl fun _ => rfl
  | drainDestroy x d e notes =>
      have hd : w.core.SameTransports (w.core.drained x d e) := .of_eq rfl rfl fun _ => rfl
      exact hd.trans (Core.close_sameTransports _ _)
  | drainReady x d e far =>
      cases far with
      | none => exact .of_eq rfl rfl fun t => hdel ..
      | some f =>
          obtain ⟨-, -, -, -, -, -, q, b, -, -, h⟩ := hg
          obtain ⟨-, h⟩ | ⟨-, t, T, -, hT, hf⟩ := h
          · cases h
          · cases hf
            refine .trans ?_ (.sendNew (by exact hT) _ _)
            exact .of_eq rfl rfl fun t => hdel ..
  | readWrte x d t T p => exact .put hg.2.2.1 rfl rfl fun t => hdel ..
  | close d => exact w.core.close_sameTransports d
  | conn t T o st q => exact .put hg rfl rfl fun _ => rfl
  | popMain t T p rest | popIo t T p rest | post t T p => exact .put hg.1 rfl rfl fun _ => rfl
  | closePipes t T => exact .put hg rfl rfl fun _ => rfl

/-- A handler other than the registration leaves the registered transports alone. -/
theorem Ops.sameTransports {k : Task} {c₀ : Core} {w w' : Work} (h : Ops (k.May c₀) w w')
    (hk : ∀ t, k ≠ .register t ∧ k ≠ .remove t) : w.core.SameTransports w'.core := by
  refine h.invariant (I := fun x => w.core.SameTransports x.core) (.refl _) ?_
  intro x o hx hg hmay
  refine hx.trans (o.sameTransports hg fun hr => ?_)
  cases o with
  | register t type => exact (hk t).1 hmay
  | unlink t => exact (hk t).2 hmay.1
  | unregister t T => exact (hk t).2 hmay
  | _ => exact hr

/-- The registration handlers leave the other transports alone. -/
theorem Ops.otherTransport {k : Task} {c₀ : Core} {w w' : Work} (h : Ops (k.May c₀) w w')
    (hk : k ≠ .register t ∧ k ≠ .remove t) :
    (w'.core.transports t = none ↔ w.core.transports t = none) ∧
      (w'.core.loop.fdes (.transport t)).active =
        (w.core.loop.fdes (.transport t)).active := by
  refine h.invariant (I := fun x => (x.core.transports t = none ↔ w.core.transports t = none) ∧
    (x.core.loop.fdes (.transport t)).active = (w.core.loop.fdes (.transport t)).active)
    ⟨.rfl, rfl⟩ ?_
  intro x o hx hg hmay
  by_cases hr : o.Registers
  · cases o with
    | register t' type =>
        have hne : t ≠ t' := fun h => hk.1 (h ▸ hmay)
        have hf : FdeId.transport t ≠ .transport t' := by simpa using hne
        simpa [Op.effect, Core.onLoop, Core.putTransport, hne,
          Loop.fdeventSet_fdes_of_ne _ _ hf, Loop.fdeventInstall_fdes_of_ne _ _ hf] using hx
    | unlink t' =>
        have hne : t ≠ t' := fun h => hk.2 (h ▸ hmay.1)
        have hf : FdeId.transport t ≠ .transport t' := by simpa using hne
        simpa [Op.effect, Core.onLoop, Loop.fdeventRemove_fdes_of_ne _ hf] using hx
    | unregister t' T =>
        have hne : t ≠ t' := fun h => hk.2 (h ▸ hmay)
        simpa [Op.effect, Core.putTransport, hne] using hx
    | _ => exact absurd hr id
  · have hs := o.sameTransports hg hr
    exact ⟨(hs.live t).trans hx.1, (hs.watched t).trans hx.2⟩

/-! ### The counters of a transport -/

/-- `1` if the condition holds. -/
def one (p : Prop) [Decidable p] : Nat := if p then 1 else 0

@[simp] theorem one_true : one True = 1 := rfl

@[simp] theorem one_false : one False = 0 := rfl

/-- Both threads of a transport have dropped their reference. -/
def Life.over (l : Life) : Prop := l.out = .done ∧ l.inp = .done

instance (l : Life) : Decidable l.over := by
  unfold Life.over; infer_instance

/-- The counters of a started transport, in terms of where its threads stand. -/
structure Life.Ok (l : Life) : Prop where
  /-- a thread has a reference until it is done -/
  ref : l.refCount = one (l.out ≠ .done) + one (l.inp ≠ .done)
  refs : l.refs = [2] ∧ l.refCount = 2 ∨ l.refs = [1, 2] ∧ l.refCount = 1 ∨
    l.refs = [0, 1, 2] ∧ l.refCount = 0
  /-- whoever sets `kicked` calls `t->kick`, or is about to -/
  kicks : l.kicks + one (l.out = .kickCall) + one (l.inp = .kickCall) = one (l.kicked = true)
  /-- a thread past `kick_transport` leaves the transport kicked -/
  kicked : l.out = .unref ∨ l.out = .done ∨ l.inp = .unref ∨ l.inp = .done → l.kicked = true
  closes : l.closes = one l.over
  removes : l.removes = one l.over
  freed : l.freed = true → l.over

/-- The counters of a transport whose registration is handled. -/
theorem Life.ok_started (type : TransportType) :
    Life.Ok { type := type, started := true, refCount := 2, refs := [2] } := by
  constructor <;> simp [one, Life.over]

/-- `transport_unref` of a thread that is past `kick_transport`, when the other is not
done. -/
theorem Life.unrefLocked_first (h : l.refCount ≠ 1) :
    l.unrefLocked = (false, { l with refCount := l.refCount - 1,
                                     refs := (l.refCount - 1) :: l.refs }) := by
  have h' : l.refCount - 1 ≠ 0 := by omega
  simp [Life.unrefLocked, h']

/-- `transport_unref` of the last thread. -/
theorem Life.unrefLocked_last (h : l.refCount = 1) (hk : l.kicked = true) :
    l.unrefLocked = (true, { l with refCount := 0, refs := 0 :: l.refs, closes := l.closes + 1,
                                    removes := l.removes + 1 }) := by
  simp [Life.unrefLocked, h, hk]

/-- Where the threads of a transport may go next, as far as the counters are concerned: the
references, the kicks and the end of the transport stay as they were. -/
structure Life.Quiet (l l' : Life) : Prop where
  ref : l'.refCount = l.refCount ∧ l'.refs = l.refs
  kicked : l'.kicked = l.kicked ∧ l'.kicks = l.kicks
  ends : l'.closes = l.closes ∧ l'.removes = l.removes ∧ l'.freed = l.freed
  out : (l'.out = .done ↔ l.out = .done) ∧ (l'.out = .kickCall ↔ l.out = .kickCall) ∧
    (l'.out = .unref → l.out = .unref ∨ l.kicked = true)
  inp : (l'.inp = .done ↔ l.inp = .done) ∧ (l'.inp = .kickCall ↔ l.inp = .kickCall) ∧
    (l'.inp = .unref → l.inp = .unref ∨ l.kicked = true)

/-- Such a move keeps the counters right. -/
theorem Life.Ok.quiet {l' : Life} (h : l.Ok) (q : l.Quiet l') : l'.Ok where
  ref := by simp only [q.ref.1, h.ref, ne_eq, q.out.1, q.inp.1]
  refs := by rw [q.ref.1, q.ref.2]; exact h.refs
  kicks := by simp only [q.kicked.1, q.kicked.2, q.out.2.1, q.inp.2.1, h.kicks]
  kicked := by
    rw [q.kicked.1]
    rintro (ho | ho | hi | hi)
    · exact (q.out.2.2 ho).elim (fun h' => h.kicked (.inl h')) id
    · exact h.kicked (.inr (.inl (q.out.1.mp ho)))
    · exact (q.inp.2.2 hi).elim (fun h' => h.kicked (.inr (.inr (.inl h')))) id
    · exact h.kicked (.inr (.inr (.inr (q.inp.1.mp hi))))
  closes := by simp only [q.ends.1, h.closes, Life.over, q.out.1, q.inp.1]
  removes := by simp only [q.ends.2.1, h.removes, Life.over, q.out.1, q.inp.1]
  freed := by
    rw [q.ends.2.2]
    intro hf
    obtain ⟨ho, hi⟩ := h.freed hf
    exact ⟨q.out.1.mpr ho, q.inp.1.mpr hi⟩

/-- The step of a thread from `l` to `l'`, which `posts` the remove message or does not. -/
structure Life.Moves (l l' : Life) (posts : Bool) : Prop where
  ok : l'.Ok
  started : l'.started = l.started
  alive : l.freed = false
  freed : l'.freed = false
  posts : l'.removes = l.removes + one (posts = true)

theorem Life.Ok.alive (h : l.Ok) (hd : l.out ≠ .done ∨ l.inp ≠ .done) : l.freed = false := by
  cases hf : l.freed with
  | false => rfl
  | true =>
      obtain ⟨ho, hi⟩ := h.freed hf
      rcases hd with hd | hd
      · exact absurd ho hd
      · exact absurd hi hd

/-- A quiet move of a thread that is not done. -/
theorem Life.Ok.moves {l' : Life} (h : l.Ok) (q : l.Quiet l') (hst : l'.started = l.started)
    (hd : l.out ≠ .done ∨ l.inp ≠ .done) : l.Moves l' false :=
  ⟨h.quiet q, hst, h.alive hd, q.ends.2.2.trans (h.alive hd), by simp [q.ends.2.1, one]⟩

/-- `transport_unref` of a thread that is past `kick_transport` and now done. -/
theorem Life.Ok.unref {l' : Life} (h : l.Ok) (hk : l.kicked = true)
    (hl : l' = { l with out := .done } ∧ l.out = .unref ∨ l' = { l with inp := .done } ∧
      l.inp = .unref) :
    l.Moves l'.unrefLocked.2 l'.unrefLocked.1 := by
  have href := h.ref
  have hrefs := h.refs
  have hkicks := h.kicks
  have hcl := h.closes
  have hrm := h.removes
  have halive : l.freed = false := h.alive (by rcases hl with ⟨-, h⟩ | ⟨-, h⟩ <;> simp [h])
  have hsame : l'.refCount = l.refCount ∧ l'.kicked = true := by
    rcases hl with ⟨rfl, -⟩ | ⟨rfl, -⟩ <;> exact ⟨rfl, hk⟩
  by_cases hlast : l.refCount = 1
  · rw [Life.unrefLocked_last (hsame.1.trans hlast) hsame.2]
    have hother : l'.over := by
      rcases hl with ⟨rfl, hpc⟩ | ⟨rfl, hpc⟩
      · refine ⟨rfl, ?_⟩
        by_contra hn
        simp [one, hpc, show l.inp ≠ .done from hn, hlast] at href
      · refine ⟨?_, rfl⟩
        by_contra hn
        simp [one, hpc, show l.out ≠ .done from hn, hlast] at href
    rcases hl with ⟨rfl, hpc⟩ | ⟨rfl, hpc⟩
    · have hi : l.inp = .done := hother.2
      refine ⟨⟨?_, ?_, ?_, ?_, ?_, ?_, ?_⟩, rfl, halive, halive, ?_⟩ <;>
        simp_all [one, Life.over]
    · have ho : l.out = .done := hother.1
      refine ⟨⟨?_, ?_, ?_, ?_, ?_, ?_, ?_⟩, rfl, halive, halive, ?_⟩ <;>
        simp_all [one, Life.over]
  · rw [Life.unrefLocked_first (by rw [hsame.1]; exact hlast)]
    rcases hl with ⟨rfl, hpc⟩ | ⟨rfl, hpc⟩
    · have hi : l.inp ≠ .done := fun hn => hlast (by simp [href, one, hpc, hn])
      have h2 : l.refCount = 2 := by simp [href, one, hpc, hi]
      refine ⟨⟨?_, ?_, ?_, ?_, ?_, ?_, ?_⟩, rfl, halive, halive, ?_⟩ <;>
        simp_all [one, Life.over]
    · have ho : l.out ≠ .done := fun hn => hlast (by simp [href, one, hpc, hn])
      have h2 : l.refCount = 2 := by simp [href, one, hpc, ho]
      refine ⟨⟨?_, ?_, ?_, ?_, ?_, ?_, ?_⟩, rfl, halive, halive, ?_⟩ <;>
        simp_all [one, Life.over]

/-- The locked section of `kick_transport` where this thread is the one to kick. -/
theorem Life.Ok.kickLock {l' : Life} (h : l.Ok) (hk : l.kicked = false)
    (hl : l' = { l with kicked := true, out := .kickCall } ∧ l.out = .kickLock ∨
      l' = { l with kicked := true, inp := .kickCall } ∧ l.inp = .kickLock) :
    l.Moves l' false := by
  have href := h.ref
  have hrefs := h.refs
  have hkicks := h.kicks
  have hcl := h.closes
  have hrm := h.removes
  have halive : l.freed = false := h.alive (by rcases hl with ⟨-, h⟩ | ⟨-, h⟩ <;> simp [h])
  have hnot := mt h.kicked (by simp [hk])
  rcases hl with ⟨rfl, hpc⟩ | ⟨rfl, hpc⟩
  · refine ⟨⟨?_, ?_, ?_, ?_, ?_, ?_, ?_⟩, rfl, halive, halive, ?_⟩ <;>
      simp_all [one, Life.over]
  · refine ⟨⟨?_, ?_, ?_, ?_, ?_, ?_, ?_⟩, rfl, halive, halive, ?_⟩ <;>
      simp_all [one, Life.over]

/-- `t->kick(t)`. -/
theorem Life.Ok.kickCall {l' : Life} (h : l.Ok)
    (hl : l' = { l.kick with out := .unref } ∧ l.out = .kickCall ∨
      l' = { l.kick with inp := .unref } ∧ l.inp = .kickCall) :
    l.Moves l' false := by
  have href := h.ref
  have hrefs := h.refs
  have hkicks := h.kicks
  have hcl := h.closes
  have hrm := h.removes
  have halive : l.freed = false := h.alive (by rcases hl with ⟨-, h⟩ | ⟨-, h⟩ <;> simp [h])
  have hk : l.kicked = true := by
    by_contra hn
    rcases hl with ⟨-, hpc⟩ | ⟨-, hpc⟩ <;> simp [one, hpc, hn] at hkicks
  rcases hl with ⟨rfl, hpc⟩ | ⟨rfl, hpc⟩
  · refine ⟨⟨?_, ?_, ?_, ?_, ?_, ?_, ?_⟩, rfl, halive, halive, ?_⟩ <;>
      simp_all [one, Life.over, Life.kick]
  · refine ⟨⟨?_, ?_, ?_, ?_, ?_, ?_, ?_⟩, rfl, halive, halive, ?_⟩ <;>
      simp_all [one, Life.over, Life.kick]

/-! ### The steps of the threads -/

/-- Running a handler touches neither the lives nor the registration pipe. -/
theorem System.run_same {m : M Unit} (h : s.run m = .ok s') :
    s'.life = s.life ∧ s'.nextT = s.nextT ∧ s'.regPipe = s.regPipe := by
  rw [System.run] at h
  split at h
  · obtain rfl := Except.ok.inj h
    exact ⟨rfl, rfl, rfl⟩
  · cases h

/-- A handler that ran has done what it does. -/
theorem System.run_does {m : M Unit} {Q : Unit → Core → Prop} {E : Fault → Prop}
    (hwp : wp m Q E s.core) (h : s.run m = .ok s') : Q () s'.core := by
  rw [System.run] at h
  split at h
  · next hm =>
    obtain rfl := Except.ok.inj h
    exact wp_ok hwp hm
  · cases h

/-- A thread of `t` moved, and posted the remove message or did not. -/
def ThreadStep (s s' : System) (t : TId) (l : Life) : Prop :=
  ∃ l' posts, l.Moves l' posts ∧ s'.life = Function.update s.life t (some l') ∧
    s'.nextT = s.nextT ∧ s'.regPipe = s.regPipe ++ if posts then [⟨t, false⟩] else []

/-- A move without a remove message. -/
theorem ThreadStep.of_moves {l' : Life} (h : l.Moves l' false)
    (hl : s'.life = Function.update s.life t (some l')) (hn : s'.nextT = s.nextT)
    (hr : s'.regPipe = s.regPipe) : ThreadStep s s' t l :=
  ⟨l', false, h, hl, hn, by simp [hr]⟩

/-- A step that only moves the thread. -/
theorem ThreadStep.set {l' : Life} (hm : l.Moves l' false)
    (h : (.ok (s.setLife t l') : Except Stop System) = .ok s') : ThreadStep s s' t l := by
  obtain rfl := Except.ok.inj h
  exact .of_moves hm rfl rfl rfl

/-- A step that moves the thread and runs a handler. -/
theorem ThreadStep.run {l' : Life} {m : M Unit} (hm : l.Moves l' false)
    (h : (s.setLife t l').run m = .ok s') : ThreadStep s s' t l := by
  obtain ⟨h₁, h₂, h₃⟩ := System.run_same h
  exact .of_moves hm h₁ h₂ h₃

/-- `transport_unref`. -/
theorem threadStep_unref {l' : Life} (h : l.Moves l'.unrefLocked.2 l'.unrefLocked.1) :
    ThreadStep s (s.transportUnref t l') t l := by
  rw [System.transportUnref]
  generalize l'.unrefLocked = r at h
  obtain ⟨posts, l''⟩ := r
  cases posts with
  | false => exact .of_moves h rfl rfl rfl
  | true => exact ⟨l'', true, h, rfl, rfl, by simp⟩

/-- One step of `output_thread`. -/
theorem threadStep_output {r : Option (AMessage × List UInt8)} {fails : Bool}
    (hl : s.life t = some l) (hok : l.Ok) (h : outputThread s t l r fails = .ok s') :
    ThreadStep s s' t l := by
  have hquiet {p : OutPc} {tok : UInt32} (hd : l.out ≠ .done ∧ l.out ≠ .kickCall)
      (hd' : p ≠ .done ∧ p ≠ .kickCall) (hu : p = .unref → l.kicked = true) :
      l.Moves { l with out := p, syncToken := tok } false :=
    hok.moves ⟨⟨rfl, rfl⟩, ⟨rfl, rfl⟩, ⟨rfl, rfl, rfl⟩, ⟨by simp [hd, hd'], by simp [hd, hd'],
      fun h => .inr (hu h)⟩, .rfl, .rfl, .inl⟩ rfl (.inl hd.1)
  cases hpc : l.out with
  | sync | offline =>
      simp only [outputThread, hpc] at h
      split at h
      · exact .set (hquiet (by simp [hpc]) (by simp) (by simp)) h
      · exact .run (hquiet (by simp [hpc]) (by simp) (by simp)) h
  | pump =>
      have hstay : l.Moves l false := hok.moves ⟨⟨rfl, rfl⟩, ⟨rfl, rfl⟩, ⟨rfl, rfl, rfl⟩,
        ⟨.rfl, .rfl, .inl⟩, .rfl, .rfl, .inl⟩ rfl (.inl (by simp [hpc]))
      simp only [outputThread, hpc] at h
      split at h
      · exact .set (hquiet (by simp [hpc]) (by simp) (by simp)) h
      · split at h
        · split at h
          · exact .set (hquiet (by simp [hpc]) (by simp) (by simp)) h
          · obtain ⟨h₁, h₂, h₃⟩ := System.run_same h
            exact .of_moves hstay (by rw [h₁, ← hl, Function.update_eq_self]) h₂ h₃
        · exact .set (hquiet (by simp [hpc]) (by simp) (by simp)) h
  | kickTest =>
      simp only [outputThread, hpc] at h
      by_cases hk : l.kicked = true
      · rw [if_pos hk] at h
        exact .set (hquiet (by simp [hpc]) (by simp) fun _ => hk) h
      · rw [if_neg hk] at h
        exact .set (hquiet (by simp [hpc]) (by simp) (by simp)) h
  | kickLock =>
      simp only [outputThread, hpc, Life.kickLocked] at h
      by_cases hk : l.kicked = true
      · rw [if_pos hk] at h
        exact .set (hquiet (by simp [hpc]) (by simp) fun _ => hk) h
      · rw [if_neg hk] at h
        exact .set (hok.kickLock (by simpa using hk) (.inl ⟨rfl, hpc⟩)) h
  | kickCall =>
      simp only [outputThread, hpc] at h
      exact .set (hok.kickCall (.inl ⟨rfl, hpc⟩)) h
  | unref =>
      simp only [outputThread, hpc] at h
      obtain rfl := Except.ok.inj h
      exact threadStep_unref (hok.unref (hok.kicked (.inl hpc)) (.inl ⟨rfl, hpc⟩))
  | done => simp [outputThread, hpc] at h

/-- One step of `input_thread`. -/
theorem threadStep_input {fails : Bool} (hok : l.Ok) (h : inputThread s t l fails = .ok s') :
    ThreadStep s s' t l := by
  have hquiet {p : InPc} {act : Bool} {sent : List APacket}
      (hd : l.inp ≠ .done ∧ l.inp ≠ .kickCall) (hd' : p ≠ .done ∧ p ≠ .kickCall)
      (hu : p = .unref → l.kicked = true) :
      l.Moves { l with inp := p, active := act, toRemote := sent } false :=
    hok.moves ⟨⟨rfl, rfl⟩, ⟨rfl, rfl⟩, ⟨rfl, rfl, rfl⟩, ⟨.rfl, .rfl, .inl⟩, by simp [hd, hd'],
      by simp [hd, hd'], fun h => .inr (hu h)⟩ rfl (.inr hd.1)
  cases hpc : l.inp with
  | reading =>
      have hpacket (p : APacket) : l.Moves (inputPacket l p) false := by
        have hl' : ∃ pc act sent, inputPacket l p =
            { l with inp := pc, active := act, toRemote := sent } ∧
              (pc = .reading ∨ pc = .closeAll) := by
          rw [inputPacket]
          split
          · split
            · exact ⟨.closeAll, _, _, rfl, .inr rfl⟩
            · split
              · exact ⟨.reading, _, _, by rw [← hpc], .inl rfl⟩
              · exact ⟨.reading, _, _, by rw [← hpc], .inl rfl⟩
          · split
            · exact ⟨.reading, _, _, by rw [← hpc], .inl rfl⟩
            · exact ⟨.reading, _, _, by rw [← hpc], .inl rfl⟩
        obtain ⟨pc, act, sent, heq, hp⟩ := hl'
        rw [heq]
        exact hquiet (by simp [hpc]) (by rcases hp with rfl | rfl <;> simp)
          (by rcases hp with rfl | rfl <;> simp)
      simp only [inputThread, hpc] at h
      split at h
      · exact .set (hquiet (by simp [hpc]) (by simp) (by simp)) h
      · split at h
        · cases h
        · split at h
          · cases h
          · exact .run (hpacket _) h
  | closeAll =>
      simp only [inputThread, hpc] at h
      exact .run (hquiet (by simp [hpc]) (by simp) (by simp)) h
  | kickTest =>
      simp only [inputThread, hpc] at h
      by_cases hk : l.kicked = true
      · rw [if_pos hk] at h
        exact .set (hquiet (by simp [hpc]) (by simp) fun _ => hk) h
      · rw [if_neg hk] at h
        exact .set (hquiet (by simp [hpc]) (by simp) (by simp)) h
  | kickLock =>
      simp only [inputThread, hpc, Life.kickLocked] at h
      by_cases hk : l.kicked = true
      · rw [if_pos hk] at h
        exact .set (hquiet (by simp [hpc]) (by simp) fun _ => hk) h
      · rw [if_neg hk] at h
        exact .set (hok.kickLock (by simpa using hk) (.inr ⟨rfl, hpc⟩)) h
  | kickCall =>
      simp only [inputThread, hpc] at h
      exact .set (hok.kickCall (.inr ⟨rfl, hpc⟩)) h
  | unref =>
      simp only [inputThread, hpc] at h
      obtain rfl := Except.ok.inj h
      exact threadStep_unref
        (hok.unref (hok.kicked (.inr (.inr (.inl hpc)))) (.inr ⟨rfl, hpc⟩))
  | done => simp [inputThread, hpc] at h

/-! ### The invariant -/

/-- The main loop has the transport `t`, if `p`: it is live and on the list, and only then
watched. -/
def Core.Has (c : Core) (t : TId) (p : Prop) : Prop :=
  (c.transports t ≠ none ↔ p) ∧ (t ∈ c.transportList ↔ p) ∧
    ((c.loop.fdes (.transport t)).active = true → p)

/-- The life of a transport, the registration pipe and the memory fit together. -/
structure Tracked (s : System) (t : TId) (l : Life) : Prop where
  waits : l.started = false → l = { type := l.type }
  ok : l.started = true → l.Ok
  toRegister : s.regPipe.count ⟨t, true⟩ = one (l.started = false)
  toRemove : s.regPipe.count ⟨t, false⟩ = if l.freed then 0 else l.removes
  has : s.core.Has t (l.started = true ∧ l.freed = false)

/-- **The invariant of the transports.** -/
structure Lives (s : System) : Prop where
  nodup : s.core.transportList.Nodup
  fresh : ∀ t, s.nextT ≤ t → s.life t = none
  unborn : ∀ t, s.life t = none → s.core.Has t False ∧ ∀ b, s.regPipe.count ⟨t, b⟩ = 0
  tracked : ∀ t l, s.life t = some l → Tracked s t l

theorem Core.Has.congr {p : Prop} (h : c.Has t p)
    (hT : c'.transports t = none ↔ c.transports t = none)
    (hl : t ∈ c'.transportList ↔ t ∈ c.transportList)
    (hf : (c'.loop.fdes (.transport t)).active = (c.loop.fdes (.transport t)).active) :
    c'.Has t p :=
  ⟨(not_congr hT).trans h.1, hl.trans h.2.1, hf ▸ h.2.2⟩

/-- A transport that is to be registered is not in use. -/
theorem Lives.unregistered (h : Lives s) : s.Unregistered := by
  intro m hm hr
  obtain ⟨t, b⟩ := m
  obtain rfl : b = true := hr
  have hpos : 0 < s.regPipe.count ⟨t, true⟩ := List.count_pos_iff.mpr hm
  cases hl : s.life t with
  | none => exact absurd ((h.unborn t hl).2 true) (Nat.ne_of_gt hpos)
  | some l =>
      have ht := h.tracked t l hl
      have hst : l.started ≠ true := by
        intro hst
        simp [ht.toRegister, hst, one] at hpos
      by_contra hn
      exact hst (ht.has.1.mp hn).1

/-- A step that touches neither lives nor messages, nor the registered transports. -/
theorem Lives.same (h : Lives s) (hl : s'.life = s.life) (hn : s'.nextT = s.nextT)
    (hp : s'.regPipe = s.regPipe) (hc : s.core.SameTransports s'.core) : Lives s' where
  nodup := by rw [hc.list]; exact h.nodup
  fresh t ht := by rw [hl]; exact h.fresh t (hn ▸ ht)
  unborn t ht := by
    rw [hl] at ht
    rw [hp]
    exact ⟨(h.unborn t ht).1.congr (hc.live t) (by rw [hc.list]) (hc.watched t),
      (h.unborn t ht).2⟩
  tracked t l ht := by
    rw [hl] at ht
    have htr := h.tracked t l ht
    exact ⟨htr.waits, htr.ok, hp ▸ htr.toRegister, hp ▸ htr.toRemove,
      htr.has.congr (hc.live t) (by rw [hc.list]) (hc.watched t)⟩

/-- Another thread registers a transport. -/
theorem Lives.register (h : Lives s) (type : TransportType) :
    Lives { s.setLife s.nextT { type := type } with
      nextT := s.nextT + 1, regPipe := s.regPipe ++ [⟨s.nextT, true⟩] } := by
  have hnew := h.unborn s.nextT (h.fresh _ (Nat.le_refl _))
  refine ⟨h.nodup, fun t ht => ?_, fun t ht => ?_, fun t l ht => ?_⟩
  · have hne : t ≠ s.nextT := by
      have : s.nextT + 1 ≤ t := ht
      omega
    simpa [System.setLife, hne] using h.fresh t (Nat.le_of_succ_le ht)
  · have hne : t ≠ s.nextT := by
      rintro rfl
      simp [System.setLife] at ht
    have hold := h.unborn t (by simpa [System.setLife, hne] using ht)
    refine ⟨hold.1, fun b => ?_⟩
    simp [List.count_append, hold.2 b, Ne.symm hne]
  · by_cases hne : t = s.nextT
    · subst hne
      obtain rfl : { type := type } = l := by simpa [System.setLife] using ht
      refine ⟨fun _ => rfl, by simp, ?_, ?_, by simpa [System.setLife] using hnew.1⟩
      · simp [List.count_append, hnew.2, one]
      · simp [List.count_append, hnew.2]
    · have htr := h.tracked t l (by simpa [System.setLife, hne] using ht)
      refine ⟨htr.waits, htr.ok, ?_, ?_, htr.has⟩
      · simpa [List.count_append, Ne.symm hne] using htr.toRegister
      · simpa [List.count_append, Ne.symm hne] using htr.toRemove

/-- A step of a thread. -/
theorem Lives.thread (h : Lives s) (hl : s.life t = some l) (hst : l.started = true)
    (hs : ThreadStep s s' t l) (hc : s.core.SameTransports s'.core) : Lives s' := by
  obtain ⟨l', posts, hm, hlife, hn, hp⟩ := hs
  have htr := h.tracked t l hl
  have hcount (m : TMsg) (hm : m ≠ ⟨t, false⟩) : s'.regPipe.count m = s.regPipe.count m := by
    rw [hp, List.count_append]
    split
    · simp [Ne.symm hm]
    · simp
  refine ⟨by rw [hc.list]; exact h.nodup, fun x hx => ?_, fun x hx => ?_, fun x lx hx => ?_⟩
  · have hold := h.fresh x (hn ▸ hx)
    have hne : x ≠ t := by
      rintro rfl
      simp [hl] at hold
    rw [hlife]
    simpa [hne] using hold
  · have hne : x ≠ t := by
      rintro rfl
      simp [hlife] at hx
    have hold := h.unborn x (by simpa [hlife, hne] using hx)
    refine ⟨hold.1.congr (hc.live x) (by rw [hc.list]) (hc.watched x), fun b => ?_⟩
    rw [hcount _ (by simp [hne])]
    exact hold.2 b
  · by_cases hne : x = t
    · subst hne
      obtain rfl : l' = lx := by simpa [hlife] using hx
      refine ⟨fun hf => ?_, fun _ => hm.ok, ?_, ?_, ?_⟩
      · simp [hm.started, hst] at hf
      · rw [hcount _ (by simp), htr.toRegister, hm.started]
      · rw [hp, List.count_append, htr.toRemove, hm.alive, hm.freed, hm.posts]
        cases posts <;> simp [one]
      · have hhas := htr.has
        rw [hm.alive] at hhas
        rw [hm.started, hm.freed]
        exact hhas.congr (hc.live x) (by rw [hc.list]) (hc.watched x)
    · have hold := h.tracked x lx (by simpa [hlife, hne] using hx)
      refine ⟨hold.waits, hold.ok, ?_, ?_,
        hold.has.congr (hc.live x) (by rw [hc.list]) (hc.watched x)⟩
      · rw [hcount _ (by simp)]
        exact hold.toRegister
      · rw [hcount _ (by simp [hne])]
        exact hold.toRemove

/-- The main loop handled the first message of the registration pipe, about `t`: the life
of `t` is now `l'`, and the other transports are as they were. -/
structure Handled (s s' : System) (t : TId) (b : Bool) (l' : Life) : Prop where
  life : s'.life = Function.update s.life t (some l')
  next : s'.nextT = s.nextT
  pipe : s.regPipe = ⟨t, b⟩ :: s'.regPipe
  nodup : s'.core.transportList.Nodup
  other : ∀ x, x ≠ t → (s'.core.transports x = none ↔ s.core.transports x = none) ∧
    (x ∈ s'.core.transportList ↔ x ∈ s.core.transportList) ∧
    (s'.core.loop.fdes (.transport x)).active = (s.core.loop.fdes (.transport x)).active

/-- Handling a message keeps the invariant, if it does so for the transport it is about. -/
theorem Lives.handled {b : Bool} {l' : Life} (h : Lives s) (hl : s.life t = some l)
    (hd : Handled s s' t b l') (ht : Tracked s' t l') : Lives s' := by
  have hcount (x : TId) (hx : x ≠ t) (b' : Bool) :
      s'.regPipe.count ⟨x, b'⟩ = s.regPipe.count ⟨x, b'⟩ := by
    rw [hd.pipe, List.count_cons]
    simp [Ne.symm hx]
  refine ⟨hd.nodup, fun x hx => ?_, fun x hx => ?_, fun x lx hx => ?_⟩
  · have hold := h.fresh x (hd.next ▸ hx)
    have hne : x ≠ t := by
      rintro rfl
      simp [hl] at hold
    rw [hd.life]
    simpa [hne] using hold
  · have hne : x ≠ t := by
      rintro rfl
      simp [hd.life] at hx
    have hold := h.unborn x (by simpa [hd.life, hne] using hx)
    obtain ⟨hT, hL, hF⟩ := hd.other x hne
    exact ⟨hold.1.congr hT hL hF, fun b' => (hcount x hne b').trans (hold.2 b')⟩
  · by_cases hne : x = t
    · subst hne
      obtain rfl : l' = lx := by simpa [hd.life] using hx
      exact ht
    · have hold := h.tracked x lx (by simpa [hd.life, hne] using hx)
      obtain ⟨hT, hL, hF⟩ := hd.other x hne
      exact ⟨hold.waits, hold.ok, (hcount x hne _).trans hold.toRegister,
        (hcount x hne _).trans hold.toRemove, hold.has.congr hT hL hF⟩

/-- A transport is registered. -/
theorem Lives.registered (h : Lives s) (hl : s.life t = some l)
    (hd : Handled s s' t true { l with started := true, refCount := 2, refs := [2] })
    (hhas : s'.core.Has t True) : Lives s' := by
  have htr := h.tracked t l hl
  have hpos : 0 < s.regPipe.count ⟨t, true⟩ := by
    rw [hd.pipe]
    simp
  have hst : l.started = false := by
    by_contra hn
    simp [htr.toRegister, hn, one] at hpos
  have hl₀ := htr.waits hst
  refine h.handled hl hd ⟨by simp, fun _ => ?_, ?_, ?_, ?_⟩
  · rw [hl₀]
    exact Life.ok_started l.type
  · have hreg := htr.toRegister
    rw [hd.pipe, List.count_cons] at hreg
    simpa [hst, one] using hreg
  · have hrem := htr.toRemove
    rw [hd.pipe, List.count_cons] at hrem
    simpa using hrem
  · rw [hl₀]
    simpa using hhas

/-- A transport is removed. -/
theorem Lives.removed (h : Lives s) (hl : s.life t = some l)
    (hd : Handled s s' t false { l with freed := true }) (hhas : s'.core.Has t False) :
    Lives s' := by
  have htr := h.tracked t l hl
  have hpos : 0 < s.regPipe.count ⟨t, false⟩ := by
    rw [hd.pipe]
    simp
  have hrem := htr.toRemove
  have hfr : l.freed = false := by
    cases hf : l.freed with
    | false => rfl
    | true => simp [hrem, hf] at hpos
  have hst : l.started = true := by
    by_contra hn
    have hl₀ := htr.waits (by simpa using hn)
    rw [hrem, hfr, hl₀] at hpos
    simp at hpos
  have hok := htr.ok hst
  have hover : l.over := by
    by_contra hn
    simp [hrem, hfr, hok.removes, one, hn] at hpos
  refine h.handled hl hd ⟨by simp [hst], fun _ => ?_, ?_, ?_, by simpa using hhas⟩
  · exact ⟨hok.ref, hok.refs, hok.kicks, hok.kicked, hok.closes, hok.removes, fun _ => hover⟩
  · have hreg := htr.toRegister
    rw [hd.pipe, List.count_cons] at hreg
    simpa using hreg
  · rw [hd.pipe, List.count_cons, hfr, hok.removes] at hrem
    simpa [one, hover] using hrem

/-! ### Every step keeps the invariant -/

/-- The callback of a socket or a transport registers nothing. -/
theorem Core.taskOf_ne (c : Core) (k : FdeId) (ev : Events) (t : TId) :
    c.taskOf k ev ≠ .register t ∧ c.taskOf k ev ≠ .remove t := by
  cases k with
  | sock x =>
      rw [Core.taskOf]
      split
      · simp
      · split <;> simp
  | transport t' =>
      rw [Core.taskOf]
      split
      · cases c.received t' <;> simp
      · simp
  | registration | subproc | ssListener | jdwp => simp [Core.taskOf]

/-- Nor does the callback that the shell-exit pipe forces. -/
theorem Core.forcedTask_ne (c : Core) (io : Io) (t : TId) :
    c.forcedTask io ≠ .register t ∧ c.forcedTask io ≠ .remove t := by
  rw [Core.forcedTask]
  split
  · split
    · exact c.taskOf_ne _ _ t
    · simp
  · simp

/-- Only the callback of the registration pipe touches lives and messages. -/
theorem callback_cases {k : FdeId} {ev : Events} (h : callback s k ev = .ok s') :
    ((∀ t, s.callbackTask s.core.io k ev ≠ .register t ∧
      s.callbackTask s.core.io k ev ≠ .remove t) ∧
      s'.life = s.life ∧ s'.nextT = s.nextT ∧ s'.regPipe = s.regPipe) ∨
    ∃ m rest l, s.regPipe = m :: rest ∧ s.life m.transport = some l ∧
      (m.register = true ∧ s.callbackTask s.core.io k ev = .register m.transport ∧
        (({ s with regPipe := rest } : System).setLife m.transport
          { l with started := true, refCount := 2, refs := [2] }).run
          (registerTransport m.transport l.type) = .ok s' ∨
      m.register = false ∧ s.callbackTask s.core.io k ev = .remove m.transport ∧
        (({ s with regPipe := rest } : System).setLife m.transport
          { l with freed := true }).run
          (removeTransport m.transport) = .ok s') := by
  cases k with
  | registration =>
      rw [callback, transportRegistrationFunc] at h
      split at h
      · next hr =>
        cases hp : s.regPipe with
        | nil => simp [hp] at h
        | cons m rest =>
            rw [hp] at h
            dsimp only at h
            cases hl : s.life m.transport with
            | none => simp [hl] at h
            | some l =>
                rw [hl] at h
                dsimp only at h
                refine .inr ⟨m, rest, l, rfl, hl, ?_⟩
                by_cases hm : m.register = true
                · rw [if_pos hm] at h
                  exact .inl ⟨hm, by simp [System.callbackTask, hr, hp, hm], h⟩
                · rw [if_neg hm] at h
                  exact .inr ⟨by simpa using hm, by simp [System.callbackTask, hr, hp, hm], h⟩
      · next hr =>
        obtain rfl := Except.ok.inj h
        exact .inl ⟨fun t => by simp [System.callbackTask, hr], rfl, rfl, rfl⟩
  | sock x => exact .inl ⟨s.core.taskOf_ne (.sock x) ev, System.run_same h⟩
  | transport t => exact .inl ⟨s.core.taskOf_ne (.transport t) ev, System.run_same h⟩
  | subproc =>
      refine .inl ⟨fun t => ?_, System.run_same h⟩
      rw [System.callbackTask]
      split
      · exact s.core.forcedTask_ne _ t
      · simp
  | ssListener => exact .inl ⟨fun t => by simp [System.callbackTask], System.run_same h⟩
  | jdwp => exact .inl ⟨fun t => by simp [System.callbackTask], System.run_same h⟩

/-- A callback of the main loop that returns. -/
theorem step_dispatch {io : Io} (h : step s (.dispatch io) = .ok s') :
    ∃ k rest, s.core.loop.pending = k :: rest ∧
      s.task (.dispatch io) = s.callbackTask io k (s.core.loop.fdes k).events ∧
      callback { s with core := s.core.taken io k rest } k (s.core.loop.fdes k).events =
        .ok s' := by
  rw [step, Loop.fdeventPlistDequeue] at h
  cases hp : s.core.loop.pending with
  | nil => simp [hp] at h
  | cons k rest =>
      rw [hp] at h
      exact ⟨k, rest, rfl, by simp [System.task, hp], h⟩

/-- The registration handler ran. -/
theorem Lives.registerStep {rest : List TMsg} {c : Core} (h : Lives s)
    (hc : s.core.SameTransports c)
    (hother : ∀ x, x ≠ t → (s'.core.transports x = none ↔ s.core.transports x = none) ∧
      (s'.core.loop.fdes (.transport x)).active = (s.core.loop.fdes (.transport x)).active)
    (hp : s.regPipe = ⟨t, true⟩ :: rest) (hl : s.life t = some l)
    (hr : (({ s with core := c, regPipe := rest } : System).setLife t
      { l with started := true, refCount := 2, refs := [2] }).run
        (registerTransport t l.type) = .ok s') : Lives s' := by
  obtain rfl := Except.ok.inj hr
  have htr := h.tracked t l hl
  have hnot : t ∉ s.core.transportList := by
    intro hm
    have hreg := htr.toRegister
    rw [hp] at hreg
    simp [one, (htr.has.2.1.mp hm).1] at hreg
  have hlist (x : TId) : x ∈ c.transportList ++ [t] ↔ x ∈ s.core.transportList ∨ x = t := by
    rw [hc.list, List.mem_append, List.mem_singleton]
  refine h.registered hl ⟨rfl, rfl, hp, ?_, fun x hx => ⟨(hother x hx).1, ?_, (hother x hx).2⟩⟩
    ⟨?_, ?_, fun _ => trivial⟩
  · change (c.transportList ++ [t]).Nodup
    rw [hc.list]
    exact Graph.nodup_append_absent h.nodup hnot
  · exact (hlist x).trans (by simp [hx])
  · simp [Core.putTransport]
  · exact (hlist t).trans (by simp)

/-- The removal handler ran. -/
theorem Lives.removeStep {rest : List TMsg} {c : Core} (h : Lives s) (hw : WF ⟨c, []⟩)
    (hc : s.core.SameTransports c)
    (hother : ∀ x, x ≠ t → (s'.core.transports x = none ↔ s.core.transports x = none) ∧
      (s'.core.loop.fdes (.transport x)).active = (s.core.loop.fdes (.transport x)).active)
    (hp : s.regPipe = ⟨t, false⟩ :: rest) (hl : s.life t = some l)
    (hr : (({ s with core := c, regPipe := rest } : System).setLife t
      { l with freed := true }).run (removeTransport t) = .ok s') : Lives s' := by
  obtain ⟨hlife, hnext, hpipe⟩ := System.run_same hr
  have hpost : s'.core.transportList = c.transportList.erase t ∧ s'.core.transports t = none ∧
      (s'.core.loop.fdes (.transport t)).active = false := by
    have hdoes := Does.removeTransport (w := ⟨c, []⟩) (t := t)
    obtain ⟨H, -, -, hpost⟩ := System.run_does (hdoes hw) hr
    exact hpost
  obtain ⟨hlist, hT, hF⟩ := hpost
  rw [hc.list] at hlist
  refine h.removed hl ⟨hlife, hnext, hpipe ▸ hp, ?_,
    fun x hx => ⟨(hother x hx).1, ?_, (hother x hx).2⟩⟩
    ⟨by simp [hT], ?_, by simp [hF]⟩
  · rw [hlist]
    exact h.nodup.erase t
  · rw [hlist]
    exact List.mem_erase_of_ne hx
  · rw [hlist]
    exact iff_of_false (fun hm => (h.nodup.mem_erase_iff.mp hm).1 rfl) id

/-- A callback of the main loop. -/
theorem Lives.dispatch {io : Io} (h : Lives s) (hw : WF ⟨s.core, []⟩)
    (hs : step s (.dispatch io) = .ok s') : Lives s' := by
  have hops := step_ops hw h.unregistered hs
  obtain ⟨k, rest, hp, htask, hcb⟩ := step_dispatch hs
  have htaken : Ops (Task.idle.May s.core) ⟨s.core, []⟩ ⟨s.core.taken io k rest, []⟩ :=
    ops_taken io hp trivial trivial
  have hsame : s.core.SameTransports (s.core.taken io k rest) :=
    htaken.sameTransports fun t => ⟨by simp, by simp⟩
  have hsameTask := s.taken_callbackTask io k rest
  rcases callback_cases hcb with ⟨hne, hlife, hnext, hpipe⟩ | ⟨m, rest', l, hp', hl, hm⟩
  · refine h.same hlife hnext hpipe (hops.sameTransports fun t => ?_)
    rw [htask, ← hsameTask]
    exact hne t
  · obtain ⟨t, b⟩ := m
    rcases hm with ⟨hb, hk, hr⟩ | ⟨hb, hk, hr⟩
    · obtain rfl : b = true := hb
      have htask' := htask.trans (hsameTask.symm.trans hk)
      refine h.registerStep hsame (fun x hx => ?_) hp' hl hr
      exact hops.otherTransport (by rw [htask']; simpa using Ne.symm hx)
    · obtain rfl : b = false := hb
      have htask' := htask.trans (hsameTask.symm.trans hk)
      refine h.removeStep (hw.ops htaken) hsame (fun x hx => ?_) hp' hl hr
      exact hops.otherTransport (by rw [htask']; simpa using Ne.symm hx)

/-- The threads' sections register nothing. -/
theorem Life.outTask_ne (l : Life) (t t' : TId) (r : Option (AMessage × List UInt8)) :
    l.outTask t r ≠ .register t' ∧ l.outTask t r ≠ .remove t' := by
  unfold Life.outTask
  cases l.out with
  | pump =>
      cases r with
      | none => simp
      | some r =>
          dsimp only
          split <;> simp
  | _ => simp

theorem InPc.task_ne (pc : InPc) (t t' : TId) :
    pc.task t ≠ .register t' ∧ pc.task t ≠ .remove t' := by
  cases pc <;> simp [InPc.task]

/-- **Every step keeps the invariant.** -/
theorem Lives.step (h : Lives s) (hw : WF ⟨s.core, []⟩) (hs : step s a = .ok s') :
    Lives s' := by
  have hops := step_ops hw h.unregistered hs
  cases a with
  | register type =>
      obtain rfl := Except.ok.inj hs
      exact h.register type
  | select ready =>
      obtain rfl := step_select hs
      exact h.same rfl rfl rfl (hops.sameTransports fun t => by simp [System.task])
  | dispatch io => exact h.dispatch hw hs
  | output t r fails =>
      obtain ⟨l, hl, hst, hs⟩ := step_outputThread hs
      refine h.thread hl hst (threadStep_output hl ((h.tracked t l hl).ok hst) hs)
        (hops.sameTransports fun x => ?_)
      simpa [System.task, hl] using l.outTask_ne t x r
  | input t fails =>
      obtain ⟨l, hl, hst, hs⟩ := step_inputThread hs
      refine h.thread hl hst (threadStep_input ((h.tracked t l hl).ok hst) hs)
        (hops.sameTransports fun x => ?_)
      simpa [System.task, hl] using l.inp.task_ne t x

/-! ### Reachable states -/

/-- The records of the daemon itself are the only ones when `fdevent_loop` starts. -/
theorem Core.init_fdes (k : FdeId)
    (h : k ∉ [FdeId.registration, .subproc, .ssListener, .jdwp]) :
    Core.init.loop.fdes k = {} := by
  simp only [List.mem_cons, List.not_mem_nil, or_false, not_or] at h
  obtain ⟨h₁, h₂, h₃, h₄⟩ := h
  simp [Core.init, Loop.fdeventAdd_fdes_of_ne, Loop.fdeventInstall_fdes_of_ne, h₁, h₂, h₃, h₄,
    Loop.empty]

/-- The event loop is well formed when `fdevent_loop` starts. -/
theorem Core.init_loop : Core.init.loop.WF ∧ Core.init.loop.pending = [] := by
  have hp : Core.init.loop.pending = [] := by decide
  have hf (k : FdeId) : (Core.init.loop.fdes k).pending = false ∧
      (Core.init.loop.fdes k).events = {} := by
    cases k with
    | registration | subproc | ssListener | jdwp => decide
    | sock x => rw [Core.init_fdes _ (by simp)]; exact ⟨rfl, rfl⟩
    | transport t => rw [Core.init_fdes _ (by simp)]; exact ⟨rfl, rfl⟩
  exact ⟨⟨by simp [hp], by simp [hp, hf], fun k _ => (hf k).2, by simp [hf]⟩, hp⟩

/-- The memory is consistent when `fdevent_loop` starts. -/
theorem wf_init : WF ⟨Core.init, []⟩ where
  graph := by
    constructor <;> simp [Core.init]
  pkts := by
    have hheld (o : Owner) : (Work.mk Core.init []).ledger.held o = [] := by
      cases o <;> rfl
    exact ⟨by simp [hheld], by simp [hheld], by simp [hheld], by simp [Work.ledger, Core.init]⟩
  watch := by
    refine ⟨Core.init_loop.1, fun s => ?_, fun t => ?_⟩
    · exact .other (by rw [Core.init_fdes _ (by simp)]) (by simp [Core.init])
    · rw [Core.init_fdes _ (by simp)]
      simp

/-- No transport is known when `fdevent_loop` starts. -/
theorem lives_init : Lives System.init := by
  refine ⟨by simp [System.init, Core.init], fun _ _ => rfl, fun t _ => ⟨⟨?_, ?_, ?_⟩, ?_⟩, ?_⟩
  · simp [System.init, Core.init]
  · simp [System.init, Core.init]
  · change (Core.init.loop.fdes (.transport t)).active = true → False
    rw [Core.init_fdes _ (by simp)]
    simp
  · simp [System.init]
  · simp [System.init]

/-- **Reachable states are consistent.** -/
theorem Reachable.sound (h : Reachable s) : WF ⟨s.core, []⟩ ∧ Lives s := by
  refine Trans.Runs.invariant (I := fun x => WF ⟨x.core, []⟩ ∧ Lives x) h
    ⟨wf_init, lives_init⟩ ?_
  rintro x a x' ⟨hw, hl⟩ - hs
  exact ⟨hw.ops (step_ops hw hl.unregistered hs), hl.step hw hs⟩

theorem Reachable.wf (h : Reachable s) : WF ⟨s.core, []⟩ := h.sound.1

theorem Reachable.lives (h : Reachable s) : Lives s := h.sound.2

/-- A run of the daemon reaches its last state. -/
theorem Reachable.of_runs {ok : System → Action → Prop}
    (h : Trans.Runs step ok System.init s) : Reachable s :=
  h.mono fun _ _ _ => trivial

/-- A thread that is done makes no step, so it has made its last access. -/
theorem step_done (hl : s.life t = some l) (h : l.over) (r : Option (AMessage × List UInt8))
    (fails : Bool) : step s (.output t r fails) = .error .disabled ∧
      step s (.input t fails) = .error .disabled := by
  obtain ⟨ho, hi⟩ := h
  simp [step, hl, outputThread, inputThread, ho, hi]

/-- **The life of a transport**, in every interleaving of its two threads and the main
loop: the values of `ref_count` are an initial part of 2, 1, 0; `t->kick`, `t->close` and
the remove message come once each by the time both threads are done, and never twice; when
the transport is freed neither thread has a step left, and it is on no list any more. -/
theorem transport_lifecycle (hs : Reachable s) (hl : s.life t = some l)
    (hst : l.started = true) :
    (l.refs.reverse <+: [2, 1, 0] ∧ l.refs.head? = some l.refCount) ∧
    (l.kicks ≤ 1 ∧ l.closes ≤ 1 ∧ l.removes ≤ 1) ∧
    (l.over → l.kicks = 1 ∧ l.closes = 1 ∧ l.removes = 1) ∧
    (l.freed = true → l.over ∧ ∀ r fails, step s (.output t r fails) = .error .disabled ∧
      step s (.input t fails) = .error .disabled) ∧
    (l.freed = true → t ∉ s.core.transportList ∧ .transport t ∉ s.core.loop.pending) := by
  have htr := hs.lives.tracked t l hl
  have hok := htr.ok hst
  refine ⟨?_, ⟨?_, ?_, ?_⟩, fun ho => ?_, fun hf => ⟨hok.freed hf, ?_⟩, fun hf => ?_⟩
  · rcases hok.refs with ⟨h, h'⟩ | ⟨h, h'⟩ | ⟨h, h'⟩
    all_goals
      rw [h, h']
      exact ⟨by decide, rfl⟩
  · have hk := hok.kicks
    have h1 : one (l.kicked = true) ≤ 1 := by
      unfold one
      split <;> simp
    omega
  · rw [hok.closes, one]
    split <;> simp
  · rw [hok.removes, one]
    split <;> simp
  · have hk := hok.kicks
    rw [hok.kicked (.inr (.inl ho.1)), ho.1, ho.2] at hk
    exact ⟨by simpa [one] using hk, by simp [hok.closes, one, ho],
      by simp [hok.removes, one, ho]⟩
  · exact fun r fails => step_done hl (hok.freed hf) r fails
  · have hgone : ¬(l.started = true ∧ l.freed = false) := by simp [hf]
    have hact : (s.core.loop.fdes (.transport t)).active = false := by
      simpa using mt htr.has.2.2 hgone
    have hpend := hs.wf.watch.not_pending hact
    refine ⟨mt htr.has.2.1.mp hgone, fun hm => ?_⟩
    have hmark := (hs.wf.watch.wf.mem _).mp hm
    exact absurd (hpend.symm.trans hmark) (by simp)

/-- A transport that comes and goes: the remote is lost at once, and the two threads leave
one after the other. -/
theorem transport_lifecycle_freed : ∃ s l, Reachable s ∧ s.life 0 = some l ∧ l.freed = true ∧
    l.kicks = 1 ∧ l.closes = 1 ∧ l.removes = 1 ∧ 0 ∉ s.core.transportList := by
  obtain ⟨s, hs, hP⟩ := exists_reachable
    [.register .usb, .select [(.registration, Events.onlyRead)], .dispatch {},
     .output 0 none false, .output 0 none false, .output 0 none false,
     .select [(.transport 0, Events.onlyRead)], .dispatch {},
     .select [(.transport 0, Events.onlyRead)], .dispatch {},
     .input 0 false, .input 0 false, .input 0 false, .output 0 none false, .input 0 false,
     .output 0 none false, .input 0 false, .input 0 false, .output 0 none false,
     .output 0 none false, .select [(.registration, Events.onlyRead)], .dispatch {}]
    (P := fun s => (s.life 0).any fun l => l.started && l.freed) (by decide +kernel)
  obtain ⟨l, hl, hfin⟩ := (Option.any_eq_true _ _).mp hP
  obtain ⟨hst, hf⟩ := (Bool.and_eq_true _ _).mp hfin
  obtain ⟨-, -, hends, hover, hgone⟩ := transport_lifecycle hs hl hst
  obtain ⟨hk, hc, hr⟩ := hends (hover hf).1
  exact ⟨s, l, hs, hl, hf, hk, hc, hr, (hgone hf).1⟩

end Adbd
