import Adbd.Draining

/-!
# Transmit Flow Control

After a local socket sent a `WRTE` it must not send another before the remote answered with
`OKAY`. There is no counter: the credit of a stream is the `FDE_READ` bit of what its
socket is watched for. `local_socket_event_func` clears it when it has sent data, and
`local_socket_ready` sets it for an `OKAY`.

The bit counts right as long as the `FDE_READ` branch runs only while it is set.
`fdevent_subproc_event_func` does not care: when a shell exits it makes the callback with
`FDE_READ` whatever the record is watched for, and data that arrived after its `FIONREAD`
is sent without credit.

## Main definitions

* `Core.wrtes`, `Core.okays`, `Core.reading`: `WRTE`s sent and `OKAY`s received on a stream
  since it was opened, and the credit bit.
* `Credit`: the bit agrees with the counts.
* `HostPaces`: the host answers no `WRTE` twice.
* `NoStrayRead`: no read without credit yields data.

## Main results

* `Task.May.credit`: every operation keeps the bit and the counts in agreement.
* `transmit_flow_control`: over whole runs.
-/

namespace Adbd

open Program Custody

variable {c c' e : Core} {w w' : Work} {o : Op} {x : SockId} {a : ASocket} {s s' : System}

/-- A `WRTE` was sent. -/
def Obs.isWrte : Obs → Bool
  | .sent _ _ m => m.command = A_WRTE
  | _ => false

/-- An `OKAY` was received. -/
def Obs.isOkay : Obs → Bool
  | .delivered _ _ m => m.command = A_OKAY
  | _ => false

/-- The `WRTE`s sent on the stream of `x` since it was opened. -/
def Core.wrtes (c : Core) (x : SockId) : Nat := (c.since x).countP Obs.isWrte

/-- The `OKAY`s received on the stream of `x` since it was opened. -/
def Core.okays (c : Core) (x : SockId) : Nat := (c.since x).countP Obs.isOkay

/-- `x` is watched for `FDE_READ`. -/
def Core.reading (c : Core) (x : SockId) : Bool := (c.loop.fdes (.sock x)).interest.read

/-- **The credit of an opened stream** with the local socket `x`. -/
structure Credit (c : Core) (x : SockId) (a : ASocket) : Prop where
  kind : a.kind = .localSocket
  balance : c.okays x ≤ c.wrtes x ∧ c.wrtes x ≤ c.okays x + 1
  reading : c.reading x = true ↔ c.wrtes x = c.okays x ∧ a.closing = false

/-- If `x` is a local socket and its stream was opened, its credit is right. -/
def Core.Credited (c : Core) (x : SockId) : Prop :=
  ∀ a, c.sockets x = some a → a.kind.isLocal = true → c.Opened x → Credit c x a

/-! ### Notes and counts -/

/-- Notes that count for nothing. -/
theorem Core.counts_append {l : List Obs} (h : c'.about x = l ++ c.about x)
    (hl : ∀ n ∈ l, n ≠ .opened x ∧ n.isWrte = false ∧ n.isOkay = false) :
    (c'.Opened x ↔ c.Opened x) ∧ c'.wrtes x = c.wrtes x ∧ c'.okays x = c.okays x := by
  have hno : .opened x ∉ l := fun hm => (hl _ hm).1 rfl
  have hs := Core.since_append h hno
  refine ⟨Core.opened_append h hno, ?_, ?_⟩
  · rw [Core.wrtes, Core.wrtes, hs, List.countP_append]
    rw [List.countP_eq_zero.mpr fun n hn => by simp [(hl n hn).2.1], Nat.zero_add]
  · rw [Core.okays, Core.okays, hs, List.countP_append]
    rw [List.countP_eq_zero.mpr fun n hn => by simp [(hl n hn).2.2], Nat.zero_add]

/-- What an operation does to the counts, if its notes count for nothing. -/
theorem Op.counts {o : Op} (hl : ∀ n ∈ o.notes c, n.subject = some x →
      n ≠ .opened x ∧ n.isWrte = false ∧ n.isOkay = false) :
    ((o.effect c).Opened x ↔ c.Opened x) ∧ (o.effect c).wrtes x = c.wrtes x ∧
      (o.effect c).okays x = c.okays x := by
  refine Core.counts_append (o.about_effect c x) fun n hn => ?_
  obtain ⟨hn, hs⟩ := List.mem_filter.mp hn
  exact hl n hn (of_decide_eq_true hs)

/-- A socket whose kind, closing flag, counts and credit bit stay as they are keeps its
credit. -/
theorem Credit.congr {a' : ASocket} (h : Credit c x a) (hk : a'.kind = a.kind)
    (hc : a'.closing = a.closing)
    (hn : c'.wrtes x = c.wrtes x ∧ c'.okays x = c.okays x) (hr : c'.reading x = c.reading x) :
    Credit c' x a' :=
  ⟨hk.trans h.kind, by rw [hn.1, hn.2]; exact h.balance,
    by rw [hr, hn.1, hn.2, hc]; exact h.reading⟩

/-- The counts depend on the log alone. -/
theorem Core.counts_of_log (h : c'.log = c.log) : (c'.Opened x ↔ c.Opened x) ∧
    c'.wrtes x = c.wrtes x ∧ c'.okays x = c.okays x :=
  Core.counts_append (l := []) (by simp [Core.about, h]) (by simp)

/-- One more note that is counted. -/
theorem Core.counts_cons {d : Core} {n : Obs} (h : d.log = n :: c.log)
    (hn : n.subject = some x) (hno : n ≠ .opened x) : (d.Opened x ↔ c.Opened x) ∧
      d.wrtes x = c.wrtes x + n.isWrte.toNat ∧ d.okays x = c.okays x + n.isOkay.toNat := by
  have habout : d.about x = [n] ++ c.about x := by simp [Core.about, h, hn]
  have hs := Core.since_append habout (by simpa using Ne.symm hno)
  refine ⟨Core.opened_append habout (by simpa using Ne.symm hno), ?_, ?_⟩
  · rw [Core.wrtes, Core.wrtes, hs, List.singleton_append, List.countP_cons]
    cases n.isWrte <;> rfl
  · rw [Core.okays, Core.okays, hs, List.singleton_append, List.countP_cons]
    cases n.isOkay <;> rfl

/-- A stream that was just opened has credit. -/
theorem Credit.opened {l : List Obs} (hk : a.kind = .localSocket) (hc : a.closing = false)
    (h : c.about x = .opened x :: l) (hr : c.reading x = true) : Credit c x a := by
  have hs := (Core.since_opened h).2
  have hw : c.wrtes x = 0 := by rw [Core.wrtes, hs]; rfl
  have ho : c.okays x = 0 := by rw [Core.okays, hs]; rfl
  exact ⟨hk, by omega, by simp [hr, hw, ho, hc]⟩

/-- An `OKAY` that answers a `WRTE` gives the credit back. -/
theorem Credit.answered (h : Credit c x a) (hc : a.closing = false)
    (hlt : c.okays x < c.wrtes x)
    (hw : c'.wrtes x = c.wrtes x) (ho : c'.okays x = c.okays x + 1)
    (hr : c'.reading x = true) :
    Credit c' x a := by
  have hbal := h.balance
  refine ⟨h.kind, by omega, ?_⟩
  simp only [hr, hc, true_iff, and_true]
  omega

/-- A `WRTE` is sent for the credit. -/
theorem Credit.spent (h : Credit c x a) (hon : c.reading x = true)
    (hw : c'.wrtes x = c.wrtes x + 1) (ho : c'.okays x = c.okays x)
    (hr : c'.reading x = false) :
    Credit c' x a := by
  obtain ⟨heq, -⟩ := h.reading.mp hon
  refine ⟨h.kind, by omega, ?_⟩
  simp only [hr, Bool.false_eq_true, false_iff, not_and]
  omega

/-! ### Operations -/

/-- The notes of handing a payload to a local socket count for nothing. -/
theorem Task.Takes.not_okay {k : Task} {t : TId} {p : APacket} (h : k.Takes e t x a p) :
    p.msg.command ≠ A_OKAY := by
  rw [h.2.1]
  decide

/-- An operation whose notes count for nothing keeps the credit of a socket it does not change
otherwise. -/
theorem Credit.kept {a' : ASocket} (h : Credit c x a)
    (hn : ∀ n ∈ o.notes c, n ≠ .opened x ∧ n.isWrte = false ∧ n.isOkay = false)
    (hr : (o.effect c).reading x = c.reading x) (hk : a'.kind = a.kind)
    (hc : a'.closing = a.closing) : Credit (o.effect c) x a' :=
  h.congr hk hc (Op.counts fun n hm _ => hn n hm).2 hr

/-- The notes of a drained queue count for nothing. -/
theorem Drained.uncounted {d : Drained} {n : Obs}
    (hn : n ∈ List.replicate d.done.length (Obs.completed x) ++ [.wrote x d.bytes]) :
    n ≠ .opened x ∧ n.isWrte = false ∧ n.isOkay = false := by
  rw [List.mem_append, List.mem_replicate, List.mem_singleton] at hn
  rcases hn with ⟨-, rfl⟩ | rfl <;> simp [Obs.isWrte, Obs.isOkay]

theorem Op.drain_uncounted {d : Drained} {n : Obs} (hn : n ∈ (Op.drain x a d).notes c) :
    n ≠ .opened x ∧ n.isWrte = false ∧ n.isOkay = false := by
  simp only [Op.notes] at hn
  split at hn
  · rw [List.append_assoc, List.singleton_append, List.mem_cons] at hn
    rcases hn with rfl | hn
    · simp [Obs.isWrte, Obs.isOkay]
    · exact Drained.uncounted hn
  · exact Drained.uncounted (d := d) (by simpa using hn)

theorem Op.drainReady_uncounted {d : Drained} {far : Option (TId × ATransport × UInt32)}
    {n : Obs} (hn : n ∈ (Op.drainReady x a d far).notes c) :
    n ≠ .opened x ∧ n.isWrte = false ∧ n.isOkay = false := by
  have hokay : A_OKAY ≠ A_WRTE := by decide
  cases far with
  | none => exact Drained.uncounted (d := d) (by simpa [Op.notes] using hn)
  | some f =>
      simp only [Op.notes, List.cons_append, List.mem_cons] at hn
      rcases hn with rfl | hn
      · simp [Obs.isWrte, Obs.isOkay, ctlPacket, APacket.finish, hokay]
      · exact Drained.uncounted hn

/-- A payload that was taken is answered at once, or later. -/
theorem Op.wrteDone_uncounted {k : Task} {t : TId} {T : ATransport} {p : APacket} {n : Obs}
    (htk : k.Takes e t x a p) (hn : n ∈ (Op.wrteDone t x a T p.msg p).notes c) :
    n ≠ .opened x ∧ n.isWrte = false ∧ n.isOkay = false := by
  have hokay : A_OKAY ≠ A_WRTE := by decide
  have hall : ∀ n ∈ (Op.wrteDone t x a T p.msg p).notes c,
      n ≠ .opened x ∧ n.isWrte = false ∧ n.isOkay = false := by
    simp [Op.notes, Obs.isWrte, Obs.isOkay, htk.not_okay, ctlPacket, APacket.finish, hokay]
  exact hall n hn

/-- An `OKAY` from the remote, which answers a `WRTE`. -/
theorem Credit.ready {t : TId} {m : AMessage} (h : Credit c x a) (hc : a.closing = false)
    (hm : m.command = A_OKAY) (hlt : c.okays x < c.wrtes x) :
    Credit ((Op.ready x t m).effect c) x a := by
  obtain ⟨-, hw, hk⟩ := Core.counts_cons (c := c) (d := (Op.ready x t m).effect c)
    (n := .delivered t x m) (x := x) rfl rfl (by simp)
  simp only [Obs.isWrte, Obs.isOkay, hm, decide_true, Bool.toNat_true,
    Bool.toNat_false] at hw hk
  refine h.answered hc hlt hw hk ?_
  simp [Core.reading, Op.effect, Core.onLoop, Core.note, Events.union, Events.onlyRead]

/-- Data that was read is sent. -/
theorem Credit.readWrte {t : TId} {T : ATransport} {p : APacket} (h : Credit c x a)
    (hm : p.msg.command = A_WRTE) (hon : c.reading x = true) :
    Credit ((Op.readWrte x a t T p).effect c) x a := by
  obtain ⟨-, hw, hk⟩ := Core.counts_cons (c := c) (d := (Op.readWrte x a t T p).effect c)
    (n := .sent t (some x) p.msg) (x := x) rfl rfl (by simp)
  simp only [Obs.isWrte, Obs.isOkay, hm, decide_true, Bool.toNat_true,
    Bool.toNat_false] at hw hk
  refine h.spent hon hw hk ?_
  simp [Core.reading, Op.effect, Core.note, Events.diff, Events.onlyRead]

/-- A socket that was closed and lives on until its queue is drained does not read. -/
theorem Credit.close {d : Close} {a' : ASocket} (h : Credit c d.sock d.self)
    (hq : ∀ n ∈ d.notes, n.subject = none) (hfate : d.fate = some a') :
    Credit ((Op.close d).effect c) d.sock a' := by
  have hcounts := Op.counts (c := c) (x := d.sock) (o := .close d) fun n hn hs => by
    simp [hq n hn] at hs
  have hoff : ((Op.close d).effect c).reading d.sock = false := by
    simp [Core.reading, Op.effect, Core.close, Close.loop, hfate, Events.diff, Events.onlyRead]
  rw [Close.fate] at hfate
  split at hfate
  · cases hfate
  · obtain rfl := Option.some.inj hfate
    refine ⟨?_, by rw [hcounts.2.1, hcounts.2.2]; exact h.balance, by simp [hoff]⟩
    dsimp only
    split
    · exact h.kind
    · rfl

/-- What an operation on an opened stream makes of its credit. -/
theorem Task.May.credit {k : Task} {a' : ASocket} (h : k.May e w o) (hg : o.Guard w)
    (hgr : Graph w.core) (hsock : o.sock = some x) (hx : w.core.sockets x = some a)
    (ho : w.core.Opened x) (hcr : Credit w.core x a) (hcl : w.core.ClientsUnopened)
    (hpace : ∀ t m, k.Gets e t x m → m.command = A_OKAY → e.Opened x → e.okays x < e.wrtes x)
    (hread : k = .read x → e.sockets x = some a → a.peer ≠ none → e.Opened x →
      e.reading x = false → e.gets = [])
    (hx' : (o.effect w.core).sockets x = some a') : Credit (o.effect w.core) x a' := by
  have hrec {b : ASocket} (hb : w.core.sockets x = some b) : b = a :=
    Option.some.inj (hb.symm.trans hx)
  have hjdwp {b : ASocket} (hb : w.core.sockets x = some b) (hj : b.kind.isJdwp = true) :
      False := by
    rw [hrec hb, hcr.kind] at hj
    cases hj
  have hadd (ev : Events) (hev : ev.read = false) (l : Loop FdeId) :
      ((l.fdeventAdd (.sock x) ev).fdes (.sock x)).interest.read =
        (l.fdes (.sock x)).interest.read := by
    simp [Events.union, hev]
  have hput {b : ASocket} (hb : (w.core.putSock x (some b)).sockets x = some a') : b = a' := by
    simpa [Core.putSock] using hb
  cases o with (dsimp only [Op.sock] at hsock; cases hsock)
  | deliver t _ m =>
      obtain ⟨b, hb, -, hj | ⟨hm, -⟩⟩ := hg
      · exact (hjdwp hb hj).elim
      · obtain rfl : a = a' := Option.some.inj (hx.symm.trans hx')
        exact hcr.kept (by simp [Op.notes, Obs.isWrte, Obs.isOkay, hm]) rfl rfl rfl
  | sendList =>
      obtain ⟨-, -, ⟨b, hb, hj⟩, -⟩ := hg
      exact (hjdwp hb hj).elim
  | flags => exact (hjdwp hg.1 hg.2).elim
  | collectFirst _ b p | collectMore _ b p =>
      have hk := hg.2.1
      rw [hrec hg.1, hcr.kind] at hk
      cases hk
  | choose _ b t =>
      have hk := hg.2
      rw [hrec hg.1, hcr.kind] at hk
      cases hk
  | rig _ b ss d t T p => exact absurd ho (hcl ss d x hg.2.2.1 hg.2.2.2.1 hg.2.2.2.2.1)
  | readOff =>
      obtain ⟨b, hb, hk⟩ := hg
      rw [hrec hb, hcr.kind] at hk
      cases hk
  | attach _ b id t T m =>
      have hn := hrec hg.1 ▸ (hgr.shape hg.1).peer.mp hg.2.2.1
      rw [hcr.kind, ← hrec hg.1, hg.2.2.2.1] at hn
      simp at hn
  | ready _ t m =>
      obtain ⟨hgets, hm, hlog⟩ := h
      obtain rfl : a = a' := Option.some.inj (hx.symm.trans hx')
      obtain ⟨hoe, hwe, hke⟩ := Core.counts_of_log (x := x) hlog.symm
      have hlt := hpace t m hgets hm (hoe.mpr ho)
      obtain ⟨b, hb, -, hcb⟩ := hg
      exact hcr.ready (hrec hb ▸ hcb) hm (by omega)
  | wrteQueue t _ b m p =>
      obtain ⟨htk, rfl, -⟩ := h
      obtain rfl := hrec hg.1
      obtain rfl := hput hx'
      exact hcr.kept (by simp [Op.notes, Obs.isWrte, Obs.isOkay, htk.not_okay])
        (hadd Events.onlyWrite rfl _) rfl rfl
  | wrteBlock t _ b m p bs =>
      obtain ⟨htk, rfl, -⟩ := h
      obtain rfl := hrec hg.1
      obtain rfl := hput hx'
      exact hcr.kept (by simp [Op.notes, Obs.isWrte, Obs.isOkay, htk.not_okay])
        (hadd Events.onlyWrite rfl _) rfl rfl
  | wrteFail t _ m p bs =>
      obtain ⟨b, htk, rfl, -⟩ := h
      obtain rfl : a = a' := Option.some.inj (hx.symm.trans hx')
      exact hcr.kept (by simp [Op.notes, Obs.isWrte, Obs.isOkay, htk.not_okay]) rfl rfl rfl
  | wrteDone t _ b T m p =>
      obtain ⟨htk, rfl, -⟩ := h
      rw [Op.wrteDone_sockets] at hx'
      obtain rfl : a = a' := Option.some.inj (hx.symm.trans hx')
      refine hcr.kept (fun n hn => Op.wrteDone_uncounted htk hn) ?_ rfl rfl
      simp [Core.reading, Op.effect, Core.sendNew, Core.newPkt, Core.push, Core.putTransport,
        Core.freePkts, Core.note]
  | drain _ b d =>
      obtain rfl := hrec hg.1
      rw [Op.drain_sockets] at hx'
      obtain rfl := hput hx'
      refine hcr.kept (fun n hn => Op.drain_uncounted hn) ?_ rfl rfl
      dsimp only [Op.effect]
      split <;> rfl
  | drainDestroy _ b d notes =>
      simp [Op.effect, Core.close, Close.fate, hg.2.2.2.2.1] at hx'
  | drainReady _ b d far =>
      obtain rfl := hrec hg.1
      rw [Op.drainReady_sockets] at hx'
      obtain rfl := hput hx'
      refine hcr.kept (fun n hn => Op.drainReady_uncounted hn) ?_ rfl rfl
      cases far <;> simp [Core.reading, Op.effect, Core.sendNew, Core.newPkt, Core.push,
        Core.putTransport, Core.note, Events.diff, Events.onlyWrite]
  | readWrte _ b t T p =>
      obtain ⟨hk, hb₀, hgot, hint, hlog⟩ := h
      obtain ⟨hb, -, -, -, hm, y, -, hp, -⟩ := hg
      obtain rfl := hrec hb
      obtain rfl : b = a' := Option.some.inj (hx.symm.trans hx')
      -- data was read, so there was credit when the callback began
      refine hcr.readWrte hm ?_
      by_contra hoff
      have hoe : e.reading x = false := by
        rw [Core.reading, ← hint]
        simpa [Core.reading] using hoff
      exact hgot (hread hk hb₀ (by simp [hp]) ((Core.counts_of_log hlog).1.mp ho) hoe)
  | close d =>
      obtain ⟨hs, -, -, hq, -⟩ := hg
      obtain rfl := hrec hs
      exact hcr.close hq (by simpa [Op.effect, Core.close] using hx')

/-- **Every operation keeps the credit right**, if the remote answers no `WRTE` twice and no
read without credit yields data. -/
theorem Task.May.credited {k : Task} (h : k.May e w o) (hg : o.Guard w) (hgr : Graph w.core)
    (hf : w.core.Fresh) (hcl : w.core.ClientsUnopened) (hcr : w.core.Credited x)
    (hpace : ∀ t m, k.Gets e t x m → m.command = A_OKAY → e.Opened x → e.okays x < e.wrtes x)
    (hread : ∀ a, k = .read x → e.sockets x = some a → a.peer ≠ none → e.Opened x →
      e.reading x = false → e.gets = []) :
    (o.effect w.core).Credited x := by
  intro a' hx' hl' ho'
  cases hx : w.core.sockets x with
  | none =>
      obtain ⟨rfl, ⟨fd, rfl⟩ | ⟨d, rfl, hk⟩⟩ := o.born hgr hg hx hx' hl'
      · -- a client is not one end of a stream yet
        have hno : (Op.effect w.core (.accept fd)).about w.core.nextSock = [] :=
          hf _ (Nat.le_refl _)
        simp [Core.Opened, hno] at ho'
      · simp only [Op.effect, Core.openStream, if_true] at hx'
        obtain rfl := Option.some.inj hx'
        refine .opened hk rfl
          (by simp [Core.about, Op.effect, Core.openStream, Obs.subject]; rfl) ?_
        simp [Core.reading, Op.effect, Core.openStream, hk, Events.union, Events.onlyRead]
  | some a =>
      have hl : a.kind.isLocal = true := (o.isLocal_old hgr hg hx hx').symm.trans hl'
      by_cases hsock : o.sock = some x
      · rcases o.opened_cases hg ho' with ho | ⟨-, -, hnew⟩ | ⟨b, id, t, T, m, rfl⟩
        · exact h.credit hg hgr hsock hx ho (hcr a hx hl ho) hcl hpace (hread a) hx'
        · exact absurd (hnew ▸ hgr.fresh hx) (Nat.lt_irrefl _)
        · simp only [Op.effect, Core.attach, if_true] at hx'
          obtain rfl := Option.some.inj hx'
          refine .opened (l := .delivered t x m :: w.core.about x) rfl hg.2.2.2.1 ?_ ?_
          · rw [Op.about_effect]
            simp only [Op.notes]
            split <;> simp [Obs.subject]
          · simp [Core.reading, Op.effect, Core.attach, Events.union, Events.onlyRead]
      · have hu := o.untouched_end hgr hg hx (SockKind.isEnd_of_isLocal hl) hsock
        obtain rfl : a = a' := Option.some.inj (hx.symm.trans (hu.sock.symm.trans hx'))
        have hsame := Core.counts_append (l := []) (x := x) hu.about (by simp)
        exact (hcr a hx hl (hu.opened.mp ho')).congr rfl rfl hsame.2
          (by rw [Core.reading, hu.interest]; rfl)

/-! ### Runs -/

/-- **The host paces the stream of `x`**: a step delivers an `OKAY` on it only if a `WRTE` is
not answered yet. -/
def HostPaces (x : SockId) (s : System) (b : Action) : Prop :=
  ∀ t p, s.task b = .packet t p → p.msg.command = A_OKAY → s.core.find p.msg.arg1 = some x →
    s.core.Opened x → s.core.okays x < s.core.wrtes x

/-- **No stray read** of `x`: a step does not call it back for `FDE_READ` with data to send
while it is not watched for `FDE_READ`. -/
def NoStrayRead (x : SockId) (s : System) (b : Action) : Prop :=
  ∀ a, s.task b = .read x → s.core.sockets x = some a → a.peer ≠ none → s.core.Opened x →
    s.core.reading x = false → (s.start b).gets = []

/-- A step keeps the credit right. -/
theorem Core.Credited.step {b : Action} (hs : Reachable s) (h : s.core.Credited x)
    (hpace : HostPaces x s b) (hread : NoStrayRead x s b) (hstep : Adbd.step s b = .ok s') :
    s'.core.Credited x := by
  have hstart : (s.start b).sockets = s.core.sockets ∧ (s.start b).find = s.core.find ∧
      (s.start b).log = s.core.log ∧ (s.start b).loop = s.core.loop := by
    cases b <;> exact ⟨rfl, rfl, rfl, rfl⟩
  obtain ⟨hsock, hfind, hlog, hloop⟩ := hstart
  obtain ⟨hopen, hwrtes, hokays⟩ := Core.counts_of_log (x := x) hlog
  have hops := step_ops hs.wf hs.lives.unregistered hstep
  refine (hops.invariant (I := fun v => WF v ∧ v.core.Fresh ∧ v.core.ClientsUnopened ∧
    v.core.Credited x) ⟨hs.wf, hs.fresh, hs.clientsUnopened, h⟩ ?_).2.2.2
  rintro v o ⟨hv, hf, hcl, hcr⟩ hg hmay
  refine ⟨hv.op hg, hf.op hv.graph hg, hcl.op hf hv.graph hg,
    hmay.credited hg hv.graph hf hcl hcr ?_ ?_⟩
  · rintro t m ⟨p, hk, rfl, hfd⟩ hm ho
    rw [hwrtes, hokays]
    exact hpace t p hk hm (hfind ▸ hfd) (hopen.mp ho)
  · intro a hk ha hp ho hr
    refine hread a hk (hsock ▸ ha) hp (hopen.mp ho) ?_
    rwa [Core.reading, ← hloop]

/-- **Transmit flow control**: in every run in which the host paces the stream of `x` and no
stray read of it happens, an opened stream has at most one unanswered `WRTE`, and its local
socket is watched for `FDE_READ` exactly if there is none and it is not closing. -/
theorem transmit_flow_control
    (h : Trans.Runs step (fun s b => HostPaces x s b ∧ NoStrayRead x s b) System.init s)
    (hx : s.core.sockets x = some a) (hl : a.kind.isLocal = true) (ho : s.core.Opened x) :
    Credit s.core x a := by
  suffices hinv : s.core.Credited x from hinv a hx hl ho
  clear hx hl ho
  induction h with
  | refl => exact fun a ha => by cases ha
  | tail hrun hok hs ih => exact ih.step (Reachable.of_runs hrun) hok.1 hok.2 hs

/-- A shell sends a byte and waits for the `OKAY`. -/
def shellSends : List Action :=
  connect 0 .usb ++ openShell 0 5 7 ++ event (.sock 0) Events.onlyRead
    { reads := [.data [65], .eagain] }

/-- The `OKAY` comes, and the shell may send again. -/
theorem transmit_flow_control_shell : ∃ s a,
    Trans.Runs step (fun s b => HostPaces 0 s b ∧ NoStrayRead 0 s b) System.init s ∧
    s.core.sockets 0 = some a ∧ a.kind.isLocal = true ∧ s.core.Opened 0 ∧
    s.core.wrtes 0 = 1 ∧ Credit s.core 0 a := by
  let test : System → Action → Bool := fun s b =>
    match s.task b with
    | .packet _ p => p.msg.command ≠ A_OKAY ∨ s.core.okays 0 < s.core.wrtes 0
    | .read _ => s.core.reading 0
    | _ => true
  have htest (s : System) (b : Action) (h : test s b = true) :
      HostPaces 0 s b ∧ NoStrayRead 0 s b := by
    constructor
    · intro t p hk hm _ _
      simpa [test, hk, hm] using h
    · intro a hk _ _ _ hr
      simp [test, hk, hr] at h
  obtain ⟨s, hs, hP⟩ := exists_run (shellSends ++ receive 0 A_OKAY 5 1 [] {}) htest
    (P := fun s => (s.core.sockets 0).any (fun a => a.kind.isLocal) ∧
      .opened 0 ∈ s.core.about 0 ∧ s.core.wrtes 0 = 1) (by decide +kernel)
  obtain ⟨ha, ho, hw⟩ := of_decide_eq_true hP
  obtain ⟨a, hx, hk⟩ := (Option.any_eq_true _ _).mp ha
  exact ⟨s, a, hs, hx, hk, ho, hw, transmit_flow_control hs hx hk ho⟩

/-- The shell exits while it waits for the `OKAY`: `FIONREAD` finds nothing, another byte
arrives, the forced callback sends it, and two `WRTE`s are unanswered. -/
theorem forced_read_without_credit : ∃ s a, Trans.Runs step (HostPaces 0) System.init s ∧
    s.core.sockets 0 = some a ∧ a.kind.isLocal = true ∧ s.core.Opened 0 ∧
    s.core.wrtes 0 = 2 ∧ s.core.okays 0 = 0 := by
  let test : System → Action → Bool := fun s b =>
    match s.task b with
    | .packet _ p => p.msg.command ≠ A_OKAY
    | _ => true
  have htest (s : System) (b : Action) (h : test s b = true) : HostPaces 0 s b := by
    intro t p hk hm
    simp [test, hk, hm] at h
  obtain ⟨s, hs, hP⟩ := exists_run (shellSends ++ event .subproc Events.onlyRead
      { subproc := some (.sock 0), rcount := 0, reads := [.data [66], .eagain] }) htest
    (P := fun s => (s.core.sockets 0).any (fun a => a.kind.isLocal) ∧
      .opened 0 ∈ s.core.about 0 ∧ s.core.wrtes 0 = 2 ∧ s.core.okays 0 = 0) (by decide +kernel)
  obtain ⟨ha, ho, hw, hk⟩ := of_decide_eq_true hP
  obtain ⟨a, hx, hl⟩ := (Option.any_eq_true _ _).mp ha
  exact ⟨s, a, hs, hx, hl, ho, hw, hk⟩

end Adbd
