import Adbd.NullPeer

/-!
# The History of a Stream

What the operations note, and what is known of a socket from its history: that the notes
about a socket are only ever extended, that a freed socket stays freed, when its stream was
opened and what happened since, and where new local sockets come from.

## Main definitions

* `Op.notes`: what an operation notes.
* `Core.Opened`, `Core.since`: the stream of a socket was opened, and what was noted about it
  after that.
* `Core.Fresh`: nothing was noted about addresses that were never used.

## Main results

* `Op.effect_log`: an operation extends the log by its notes.
* `Op.born`: a new local socket is accepted, or made for an `OPEN`.
* `Reachable.fresh`.
-/

namespace Adbd

open Program Custody

variable {c c' : Core} {w w' : Work} {o : Op} {x : SockId} {a : ASocket} {s s' : System}

/-! ### The log -/

/-- What an operation notes, newest first. -/
def Op.notes (c : Core) : Op → List Obs
  | .note o => [o]
  | .deliver t s m | .ready s t m => [.delivered t s m]
  | .send t _ p => [.sent t none p.msg]
  | .sendList s t _ p | .readWrte s _ t _ p => [.sent t (some s) p.msg]
  | .rig _ _ _ _ t _ p => [.sent t none (p c.nextPkt).msg]
  | .openStream d =>
      [.opened c.nextSock, .sent d.t (some c.nextSock)
        (ctlPacket c.nextPkt A_OKAY c.localSocketNextId d.remote).msg]
  | .attach s a _ t _ m =>
      (if a.kind = .localNotify then [.status a.fd true] else []) ++
        [.opened s, .delivered t s m]
  | .wrteQueue t s _ m p => [.taken s p.bytes, .delivered t s m]
  | .wrteBlock t s _ m p bs => [.wrote s bs, .taken s p.bytes, .delivered t s m]
  | .wrteFail t s m p bs => [.writeFailed s, .wrote s bs, .taken s p.bytes, .delivered t s m]
  | .wrteDone t s a _ m p =>
      [.sent t (some s) (ctlPacket c.nextPkt A_OKAY a.id m.arg0).msg, .completed s,
        .wrote s p.bytes, .taken s p.bytes, .delivered t s m]
  | .drain s _ d =>
      (if d.verdict = .failed then [.writeFailed s] else []) ++
        List.replicate d.done.length (.completed s) ++ [.wrote s d.bytes]
  | .drainDestroy s _ d notes =>
      notes ++ List.replicate d.done.length (.completed s) ++ [.wrote s d.bytes]
  | .drainReady s a d far =>
      (match far with
        | some (t, _, id) => [.sent t (some s) (ctlPacket c.nextPkt A_OKAY a.id id).msg]
        | none => []) ++
        List.replicate d.done.length (.completed s) ++ [.wrote s d.bytes]
  | .close d => d.notes
  | _ => []

/-- **An operation extends the log by its notes.** -/
theorem Op.effect_log (c : Core) (o : Op) : (o.effect c).log = o.notes c ++ c.log := by
  cases o with
  | attach s b id t T m => simp [Op.effect, Op.notes, Core.attach]
  | wrteDone t s b T m p =>
      simp [Op.effect, Op.notes, Core.sendNew, Core.newPkt, Core.push, Core.putTransport,
        Core.freePkts, Core.note]
  | drain s b d => cases hv : d.verdict <;>
      simp [Op.effect, Op.notes, Core.note, Core.drained, hv]
  | drainDestroy s b d notes => simp [Op.effect, Op.notes, Core.close, Core.drained]
  | drainReady s b d far =>
      cases far with
      | none => simp [Op.effect, Op.notes, Core.onLoop, Core.drained]
      | some f =>
          simp [Op.effect, Op.notes, Core.sendNew, Core.note, Core.push, Core.putTransport,
            Core.newPkt, Core.onLoop, Core.drained, Core.freePkts, Core.putSock]
  | _ => rfl

/-- What is noted about a socket is only ever extended. -/
theorem Op.about_effect (c : Core) (o : Op) (x : SockId) :
    (o.effect c).about x = (o.notes c).filter (fun n => n.subject = some x) ++ c.about x := by
  rw [Core.about, Core.about, o.effect_log, List.filter_append]

theorem Op.about_grows (c : Core) (o : Op) (x : SockId) :
    ∃ l, (o.effect c).about x = l ++ c.about x :=
  ⟨_, o.about_effect c x⟩

/-- A freed socket stays freed, and nothing more is noted about it. -/
theorem Ops.dead {P : Work → Op → Prop} (h : Ops P w w') (hw : WF w)
    (hx : w.core.sockets x = none) (hfresh : x < w.core.nextSock) :
    w.core.Untouched w'.core x ∧ x < w'.core.nextSock := by
  refine (h.invariant (I := fun v => WF v ∧ w.core.Untouched v.core x ∧ x < v.core.nextSock)
    ⟨hw, .refl _ _, hfresh⟩ ?_).2
  rintro v o ⟨hv, hu, hlt⟩ hg -
  have hdead := o.untouched_dead hv.graph hg (hu.sock.trans hx) fun _ => hlt
  exact ⟨hv.op hg, hu.trans hdead, Nat.lt_of_lt_of_le hlt (o.nextSock_le v.core)⟩

/-- What is noted about a socket is only ever extended by operations. -/
theorem Ops.about_grows {P : Work → Op → Prop} (h : Ops P w w') (x : SockId) :
    w.core.nextSock ≤ w'.core.nextSock ∧ ∃ l, w'.core.about x = l ++ w.core.about x := by
  refine h.invariant (I := fun v => w.core.nextSock ≤ v.core.nextSock ∧
    ∃ l, v.core.about x = l ++ w.core.about x) ⟨Nat.le_refl _, [], rfl⟩ ?_
  rintro v o ⟨hle, l, hl⟩ - -
  obtain ⟨l', hl'⟩ := o.about_grows v.core x
  exact ⟨Nat.le_trans hle (o.nextSock_le v.core), l' ++ l, by
    rw [Op.apply_core, hl', hl, List.append_assoc]⟩

/-! ### Opening -/

/-- The stream of the local socket `x` was opened. -/
def Core.Opened (c : Core) (x : SockId) : Prop := .opened x ∈ c.about x

/-- What was noted about `x` since its stream was opened, newest first. -/
def Core.since (c : Core) (x : SockId) : List Obs := (c.about x).takeWhile (· ≠ .opened x)

theorem Core.Untouched.opened (h : c.Untouched c' x) : c'.Opened x ↔ c.Opened x := by
  rw [Core.Opened, Core.Opened, h.about]

theorem Core.Untouched.since (h : c.Untouched c' x) : c'.since x = c.since x := by
  rw [Core.since, Core.since, h.about]

/-- Notes about `x` other than its opening come on top of what is there. -/
theorem Core.since_append {l : List Obs} (h : c'.about x = l ++ c.about x)
    (hl : .opened x ∉ l) :
    c'.since x = l ++ c.since x := by
  rw [Core.since, h, List.takeWhile_append_of_pos]
  · rfl
  · intro n hn
    have hne : n ≠ .opened x := by
      rintro rfl
      exact hl hn
    simpa using hne

theorem Core.opened_append {l : List Obs} (h : c'.about x = l ++ c.about x)
    (hl : .opened x ∉ l) : c'.Opened x ↔ c.Opened x := by
  rw [Core.Opened, Core.Opened, h, List.mem_append]
  exact or_iff_right hl

/-- With the opening as the newest note nothing has happened since. -/
theorem Core.since_opened {l : List Obs} (h : c.about x = .opened x :: l) :
    c.Opened x ∧ c.since x = [] := by
  rw [Core.Opened, Core.since, h]
  simp

/-! ### New sockets -/

/-- What an operation makes of the record of a live socket. -/
inductive Evolves (c : Core) (o : Op) (x : SockId) (a : ASocket) : ASocket → Prop
  | queue (q : List APacket) : Evolves c o x a { a with queue := q }
  | flags (pass needUpdate : Bool) : a.kind.isJdwp = true →
      Evolves c o x a { a with pass := pass, needUpdate := needUpdate }
  | choose (t : Option TId) : a.kind = .smartSocket → Evolves c o x a { a with transport := t }
  | rig (ss : SockId) (b : ASocket) (t : TId) (T : ATransport) (p : Nat → APacket) :
      o = .rig x a ss b t T p →
      Evolves c o x a { a with kind := .localNotify, peer := none, transport := some t }
  | attach (id : UInt32) (t : TId) (T : ATransport) (m : AMessage) : o = .attach x a id t T m →
      Evolves c o x a { a with kind := .localSocket, peer := some c.nextSock }
  | close (d : Close) (a' : ASocket) : o = .close d → d.sock = x → d.self = a →
      d.fate = some a' → Evolves c o x a a'

theorem Evolves.same : Evolves c o x a a := .queue a.queue

/-- **A socket that lives through an operation.** -/
theorem Op.evolves {a' : ASocket} (hgr : Graph w.core) (hg : o.Guard w)
    (hx : w.core.sockets x = some a) (hx' : (o.effect w.core).sockets x = some a') :
    Evolves w.core o x a a' := by
  have hlt := hgr.fresh hx
  have hnew : x ≠ w.core.nextSock ∧ x ≠ w.core.nextSock + 1 :=
    ⟨Nat.ne_of_lt hlt, Nat.ne_of_lt (Nat.lt_succ_of_lt hlt)⟩
  have hsame (h : w.core.sockets x = some a') : Evolves w.core o x a a' := by
    obtain rfl : a = a' := Option.some.inj (hx.symm.trans h)
    exact .same
  have hput {z : SockId} {b d : ASocket} (hz : w.core.sockets z = some b)
      (hd : (w.core.putSock z (some d)).sockets x = some a')
      (hk : x = z → b = a → Evolves w.core o x a d) : Evolves w.core o x a a' := by
    by_cases hxz : x = z
    · subst hxz
      obtain rfl : d = a' := by simpa [Core.putSock] using hd
      exact hk rfl (Option.some.inj (hz.symm.trans hx))
    · exact hsame (by simpa [Core.putSock, hxz] using hd)
  cases o with
  | flags z d => exact hput hg.1 hx' fun _ hd => hd ▸ .flags _ _ hg.2
  | collectFirst z d | collectMore z d | wrteQueue _ z d | wrteBlock _ z d =>
      exact hput hg.1 hx' fun _ hd => hd ▸ .queue _
  | choose z d => exact hput hg.1 hx' fun _ hd => hd ▸ .choose _ hg.2
  | accept fd => exact hsame (by simpa [Op.effect, Core.accept, hnew] using hx')
  | openStream d => exact hsame (by simpa [Op.effect, Core.openStream, hnew] using hx')
  | attach z d id t T m =>
      refine hput (d := { d with kind := .localSocket, peer := some w.core.nextSock })
        hg.1 ?_ ?_
      · simpa [Op.effect, Core.attach, hnew.1, Core.putSock, Function.update_apply] using hx'
      · rintro rfl rfl
        exact .attach id t T m rfl
  | rig z d ss e t T p =>
      simp only [Op.effect, Core.rig] at hx'
      split at hx'
      · next hxz =>
        subst hxz
        obtain rfl : a = d := Option.some.inj (hx.symm.trans hg.1)
        obtain rfl := Option.some.inj hx'
        exact .rig ss e t T p rfl
      · split at hx'
        · cases hx'
        · exact hsame hx'
  | wrteDone t z d T m p =>
      rw [Op.wrteDone_sockets] at hx'
      exact hsame hx'
  | drain z d e =>
      rw [Op.drain_sockets] at hx'
      exact hput hg.1 hx' fun _ hd => hd ▸ .queue _
  | drainDestroy z d e notes =>
      have hcl := hg.2.2.2.2.1
      simp only [Op.effect, Core.close, Close.fate, hcl, Bool.true_or, if_true] at hx'
      split at hx'
      · cases hx'
      · next hne =>
          exact hsame (by simpa [Core.drained, Core.freePkts, Core.putSock, hne] using hx')
  | drainReady z d e far =>
      rw [Op.drainReady_sockets] at hx'
      exact hput hg.1 hx' fun _ hd => hd ▸ .queue _
  | close d =>
      simp only [Op.effect, Core.close] at hx'
      split at hx'
      · next hxz =>
        exact .close d a' rfl hxz.symm (Option.some.inj ((hxz ▸ hg.1).symm.trans hx)) hx'
      · split at hx'
        · cases hx'
        · exact hsame hx'
  | _ => exact hsame hx'

/-- **A socket that an operation makes**: the two ends of a client, the two ends of a stream,
or the other end of a waiting socket. -/
theorem Op.newborn (hgr : Graph w.core) (hg : o.Guard w) (hx : w.core.sockets x = none)
    (hx' : (o.effect w.core).sockets x = some a) :
    (∃ fd, o = .accept fd ∧ (x = w.core.nextSock ∧ a.kind = .localSocket ∨
      a.kind = .smartSocket ∧ a.peer = some w.core.nextSock)) ∨
    (∃ d, o = .openStream d ∧
      (x = w.core.nextSock ∧ a.kind = d.kind ∨ a.kind = .remoteSocket)) ∨
    ((∃ y b id t T m, o = .attach y b id t T m) ∧ a.kind = .remoteSocket) := by
  have hnot (hn : ¬o.Allocates) : False := by
    have hu := o.untouched_dead hgr hg hx fun h => absurd h hn
    rw [hu.sock, hx] at hx'
    cases hx'
  cases o with
  | accept fd =>
      refine .inl ⟨fd, rfl, ?_⟩
      simp only [Op.effect, Core.accept] at hx'
      split at hx'
      · next hxs =>
        obtain rfl := Option.some.inj hx'
        exact .inl ⟨hxs, rfl⟩
      · split at hx'
        · obtain rfl := Option.some.inj hx'
          exact .inr ⟨rfl, rfl⟩
        · simp [hx] at hx'
  | openStream d =>
      refine .inr (.inl ⟨d, rfl, ?_⟩)
      simp only [Op.effect, Core.openStream] at hx'
      split at hx'
      · next hxs =>
        obtain rfl := Option.some.inj hx'
        exact .inl ⟨hxs, rfl⟩
      · split at hx'
        · obtain rfl := Option.some.inj hx'
          exact .inr rfl
        · simp [hx] at hx'
  | attach y b id t T m =>
      refine .inr (.inr ⟨⟨y, b, id, t, T, m, rfl⟩, ?_⟩)
      simp only [Op.effect, Core.attach] at hx'
      split at hx'
      · next hxs => simp [hxs, hg.1] at hx
      · split at hx'
        · obtain rfl := Option.some.inj hx'
          rfl
        · simp [hx] at hx'
  | _ => exact (hnot (by simp [Op.Allocates])).elim

/-- **A new local socket** is one that was accepted, or one made for an `OPEN`. -/
theorem Op.born (hgr : Graph w.core) (hg : o.Guard w) (hx : w.core.sockets x = none)
    (hx' : (o.effect w.core).sockets x = some a) (hl : a.kind.isLocal = true) :
    x = w.core.nextSock ∧
      ((∃ fd, o = .accept fd) ∨ ∃ d, o = .openStream d ∧ d.kind = .localSocket) := by
  rcases o.newborn hgr hg hx hx' with ⟨fd, rfl, ⟨hn, -⟩ | ⟨hk, -⟩⟩ | ⟨d, rfl,
    ⟨hn, hk⟩ | hk⟩ | ⟨-, hk⟩
  · exact ⟨hn, .inl ⟨fd, rfl⟩⟩
  · simp [hk, SockKind.isLocal] at hl
  · refine ⟨hn, .inr ⟨d, rfl, ?_⟩⟩
    have hne := hg.2.1
    rw [hk] at hl
    revert hl hne
    cases d.kind <;> simp [SockKind.isLocal]
  · simp [hk, SockKind.isLocal] at hl
  · simp [hk, SockKind.isLocal] at hl

theorem SockKind.isEnd_of_isLocal {k : SockKind} (h : k.isLocal = true) : k.isEnd = true := by
  revert h; cases k <;> simp [SockKind.isLocal, SockKind.isEnd]

/-- The client of a smart socket is a local one. -/
theorem Graph.client_isLocal {ss : SockId} {b : ASocket} (hgr : Graph c)
    (hx : c.sockets x = some a)
    (hp : a.peer = some ss) (hb : c.sockets ss = some b) (hk : b.kind = .smartSocket) :
    a.kind.isLocal = true := by
  obtain ⟨b', hb', -, hf⟩ := hgr.peer hx hp
  obtain rfl : b = b' := Option.some.inj (hb.symm.trans hb')
  revert hf
  rw [hk]
  cases a.kind <;> simp [SockKind.Faces, SockKind.isLocal, SockKind.isEnd]

/-- A socket that lives on after it was closed is a local one. -/
theorem Graph.fate_isLocal {d : Close} {a' : ASocket} (hgr : Graph c)
    (hd : c.sockets d.sock = some d.self) (he : d.self.kind.isEnd = true)
    (hf : d.fate = some a') : d.self.kind.isLocal = true ∧ a'.kind.isLocal = true := by
  rw [Close.fate] at hf
  split at hf
  · cases hf
  · next hq =>
    obtain rfl := Option.some.inj hf
    have hl : d.self.kind.isLocal = true := by
      rcases (hgr.shape hd).queue with hl | hn | ⟨hk, -⟩
      · exact hl
      · simp [hn] at hq
      · simp [hk, SockKind.isEnd] at he
    refine ⟨hl, ?_⟩
    dsimp only
    split
    · exact hl
    · rfl

/-- A local socket stays local, and no other socket becomes one. -/
theorem Op.isLocal_old {a' : ASocket} (hgr : Graph w.core) (hg : o.Guard w)
    (hx : w.core.sockets x = some a) (hx' : (o.effect w.core).sockets x = some a') :
    a'.kind.isLocal = a.kind.isLocal := by
  cases o.evolves hgr hg hx hx' with
  | queue | flags | choose => rfl
  | rig ss b t T p ho =>
      subst ho
      exact (hgr.client_isLocal hx hg.2.1 hg.2.2.1 hg.2.2.2.1).symm
  | attach id t T m ho =>
      subst ho
      exact Eq.symm hg.2.1
  | close d _ ho hd hs hf =>
      subst ho hd hs
      obtain ⟨h, h'⟩ := hgr.fate_isLocal hg.1 hg.2.1 hf
      rw [h, h']

/-- A closing socket stays closing. -/
theorem Op.closing_stays {a' : ASocket} (hgr : Graph w.core) (hg : o.Guard w)
    (hx : w.core.sockets x = some a) (hx' : (o.effect w.core).sockets x = some a')
    (hc : a.closing = true) : a'.closing = true := by
  cases o.evolves hgr hg hx hx' with
  | queue | flags | choose | rig | attach => exact hc
  | close d _ ho hd hs hf =>
      rw [Close.fate] at hf
      split at hf
      · cases hf
      · obtain rfl := Option.some.inj hf
        rfl

/-- Nothing was noted about addresses that were never used. -/
def Core.Fresh (c : Core) : Prop := ∀ x, c.nextSock ≤ x → c.about x = []

/-- Every operation keeps this. -/
theorem Core.Fresh.op (h : w.core.Fresh) (hgr : Graph w.core) (hg : o.Guard w) :
    (o.effect w.core).Fresh := by
  intro x hx
  have hle := Nat.le_trans (o.nextSock_le w.core) hx
  have hnone : w.core.sockets x = none := hgr.sockets_fresh hle
  have hold := h x hle
  by_cases ha : o.Allocates
  · cases o with
    | accept fd => exact hold
    | openStream d =>
        have hne : w.core.nextSock ≠ x := Nat.ne_of_lt (Nat.lt_of_succ_lt hx)
        rw [Op.about_effect, hold]
        simp [Op.notes, Obs.subject, hne]
    | attach y b id t T m =>
        have hne : y ≠ x := by
          rintro rfl
          exact absurd hg.1 (by simp [hnone])
        rw [Op.about_effect, hold]
        simp only [Op.notes]
        split <;> simp [Obs.subject, hne]
    | _ => exact ha.elim
  · rw [(o.untouched_dead hgr hg hnone fun h => absurd h ha).about, hold]

/-- Nothing is noted about addresses that were never used. -/
theorem Reachable.fresh (h : Reachable s) : s.core.Fresh := by
  induction h with
  | refl => exact fun _ _ => rfl
  | tail hrun _ hs ih =>
      have hr := Reachable.of_runs hrun
      refine ((step_ops hr.wf hr.lives.unregistered hs).invariant
        (I := fun v => WF v ∧ v.core.Fresh) ⟨hr.wf, ih⟩ ?_).2
      rintro v o ⟨hv, hf⟩ hg -
      exact ⟨hv.op hg, hf.op hv.graph hg⟩

/-! ### Clients of the smart socket -/

/-- The client of a smart socket is not one end of a stream yet. -/
def Core.ClientsUnopened (c : Core) : Prop :=
  ∀ y b x, c.sockets y = some b → b.kind = .smartSocket → b.peer = some x → ¬c.Opened x

/-- A smart socket was there before, with the same client, unless it was just made. -/
theorem Op.smart_old {y : SockId} {b : ASocket} (hgr : Graph w.core) (hg : o.Guard w)
    (hy : (o.effect w.core).sockets y = some b) (hk : b.kind = .smartSocket) :
    (∃ b', w.core.sockets y = some b' ∧ b'.kind = .smartSocket ∧ b'.peer = b.peer) ∨
      ∃ fd, o = .accept fd ∧ b.peer = some w.core.nextSock := by
  cases hy₀ : w.core.sockets y with
  | none =>
      rcases o.newborn hgr hg hy₀ hy with ⟨fd, rfl, ⟨-, hb⟩ | ⟨-, hp⟩⟩ | ⟨d, rfl,
        ⟨-, hb⟩ | hb⟩ | ⟨-, hb⟩
      · simp [hb] at hk
      · exact .inr ⟨fd, rfl, hp⟩
      · have he := hg.1
        rw [hb] at hk
        simp [hk, SockKind.isEnd] at he
      · simp [hb] at hk
      · simp [hb] at hk
  | some b' =>
      cases o.evolves hgr hg hy₀ hy with
      | queue | flags | choose => exact .inl ⟨b', rfl, hk, rfl⟩
      | rig | attach => cases hk
      | close d _ ho hd hs hf =>
          subst ho hd hs
          have hl := (hgr.fate_isLocal hg.1 hg.2.1 hf).2
          simp [hk, SockKind.isLocal] at hl

/-- A stream is opened for a new socket, or for one that waits for its `OKAY`. -/
theorem Op.opened_cases (hg : o.Guard w) (h : (o.effect w.core).Opened x) :
    w.core.Opened x ∨ (∃ d, o = .openStream d ∧ x = w.core.nextSock) ∨
      ∃ a id t T m, o = .attach x a id t T m := by
  rw [Core.Opened, Op.about_effect, List.mem_append, List.mem_filter] at h
  rcases h with ⟨hm, -⟩ | h
  · cases o with
    | openStream d =>
        refine .inr (.inl ⟨d, rfl, ?_⟩)
        simpa [Op.notes] using hm
    | attach y a id t T m =>
        refine .inr (.inr ⟨a, id, t, T, m, ?_⟩)
        simp only [Op.notes] at hm
        split at hm <;> simp at hm <;> rw [hm]
    | note n =>
        have hs : n.subject = none := hg
        simp only [Op.notes, List.mem_singleton] at hm
        simp [← hm, Obs.subject] at hs
    | close d =>
        have hs := hg.2.2.2.1 _ hm
        simp [Obs.subject] at hs
    | drainDestroy y a d notes =>
        simp only [Op.notes, List.mem_append, List.mem_replicate, List.mem_singleton] at hm
        rcases hm with (hm | ⟨-, hm⟩) | hm
        · have hs := hg.2.2.2.2.2 _ hm
          simp [Obs.subject] at hs
        · cases hm
        · cases hm
    | drain y a d =>
        simp only [Op.notes] at hm
        split at hm <;> simp at hm
    | drainReady y a d far => cases far <;> simp [Op.notes] at hm
    | _ => simp [Op.notes] at hm
  · exact .inl h

/-- Every operation keeps the clients of smart sockets unopened. -/
theorem Core.ClientsUnopened.op (h : w.core.ClientsUnopened) (hf : w.core.Fresh)
    (hgr : Graph w.core) (hg : o.Guard w) : (o.effect w.core).ClientsUnopened := by
  intro y b x hy hk hp ho
  rcases o.smart_old hgr hg hy hk with ⟨b', hb', hk', hp'⟩ | ⟨fd, rfl, hp'⟩
  · have hpx : b'.peer = some x := hp'.trans hp
    obtain ⟨a, ha, hback, -⟩ := hgr.peer hb' hpx
    rcases o.opened_cases hg ho with ho | ⟨-, -, hx⟩ | ⟨a', id, t, T, m, rfl⟩
    · exact h y b' x hb' hk' hpx ho
    · have hlt := hgr.fresh ha
      exact absurd (hx ▸ hlt) (Nat.lt_irrefl _)
    · have hn := hg.2.2.1
      obtain rfl : a = a' := Option.some.inj (ha.symm.trans hg.1)
      simp [hback] at hn
  · obtain rfl : w.core.nextSock = x := Option.some.inj (hp'.symm.trans hp)
    have hnil : w.core.about w.core.nextSock = [] := hf _ (Nat.le_refl _)
    rw [Core.Opened, Op.about_effect, hnil] at ho
    simp [Op.notes] at ho

/-- A socket that waits for its `OKAY` is not one end of a stream yet. -/
def Core.WaitersUnopened (c : Core) : Prop :=
  ∀ x a, c.sockets x = some a → a.kind = .localNotify → ¬c.Opened x

/-- A socket that waits for its `OKAY` did so before, or its request was just granted. -/
theorem Op.notify_old (hgr : Graph w.core) (hg : o.Guard w)
    (hx : (o.effect w.core).sockets x = some a) (hk : a.kind = .localNotify) :
    (∃ a', w.core.sockets x = some a' ∧ a'.kind = .localNotify) ∨
      ∃ b ss d t T p, o = .rig x b ss d t T p := by
  cases hx₀ : w.core.sockets x with
  | none =>
      rcases o.newborn hgr hg hx₀ hx with ⟨fd, rfl, ⟨-, hb⟩ | ⟨hb, -⟩⟩ | ⟨d, rfl,
        ⟨-, hb⟩ | hb⟩ | ⟨-, hb⟩
      · simp [hb] at hk
      · simp [hb] at hk
      · exact absurd (hb.symm.trans hk) hg.2.1
      · simp [hb] at hk
      · simp [hb] at hk
  | some a' =>
      cases o.evolves hgr hg hx₀ hx with
      | queue | flags | choose => exact .inl ⟨a', rfl, hk⟩
      | rig ss b t T p ho => exact .inr ⟨a', ss, b, t, T, p, ho⟩
      | attach => cases hk
      | close d _ ho hd hs hf =>
          subst ho hd hs
          rw [Close.fate] at hf
          split at hf
          · cases hf
          · obtain rfl := Option.some.inj hf
            dsimp only at hk
            split at hk
            · exact .inl ⟨d.self, rfl, hk⟩
            · cases hk

/-- Every operation keeps the waiting sockets unopened. -/
theorem Core.WaitersUnopened.op (h : w.core.WaitersUnopened) (hcl : w.core.ClientsUnopened)
    (hgr : Graph w.core) (hg : o.Guard w) : (o.effect w.core).WaitersUnopened := by
  intro x a hx hk ho
  rcases o.notify_old hgr hg hx hk with ⟨a', hx₀, hk'⟩ | ⟨b, ss, d, t, T, p, rfl⟩
  · rcases o.opened_cases hg ho with ho | ⟨-, -, hnew⟩ | ⟨b, id, t, T, m, rfl⟩
    · exact h x a' hx₀ hk' ho
    · exact absurd (hnew ▸ hgr.fresh hx₀) (Nat.lt_irrefl _)
    · simp only [Op.effect, Core.attach, if_true] at hx
      obtain rfl := Option.some.inj hx
      cases hk
  · refine hcl ss d x hg.2.2.1 hg.2.2.2.1 hg.2.2.2.2.1 ?_
    rcases Op.opened_cases hg ho with ho | ⟨_, hd, -⟩ | ⟨_, _, _, _, _, hd⟩
    · exact ho
    · cases hd
    · cases hd

/-- No client of a smart socket is one end of a stream. -/
theorem Reachable.clientsUnopened (h : Reachable s) : s.core.ClientsUnopened := by
  induction h with
  | refl => exact fun _ _ _ hy => by cases hy
  | tail hrun _ hs ih =>
      have hr := Reachable.of_runs hrun
      refine ((step_ops hr.wf hr.lives.unregistered hs).invariant
        (I := fun v => WF v ∧ v.core.Fresh ∧ v.core.ClientsUnopened) ⟨hr.wf, hr.fresh,
          ih⟩ ?_).2.2
      rintro v o ⟨hv, hf, hc⟩ hg -
      exact ⟨hv.op hg, hf.op hv.graph hg, hc.op hf hv.graph hg⟩

/-- No socket that waits for its `OKAY` is one end of a stream. -/
theorem Reachable.waitersUnopened (h : Reachable s) : s.core.WaitersUnopened := by
  induction h with
  | refl => exact fun _ _ hx => by cases hx
  | tail hrun _ hs ih =>
      have hr := Reachable.of_runs hrun
      refine ((step_ops hr.wf hr.lives.unregistered hs).invariant
        (I := fun v => WF v ∧ v.core.Fresh ∧ v.core.ClientsUnopened ∧ v.core.WaitersUnopened)
        ⟨hr.wf, hr.fresh, hr.clientsUnopened, ih⟩ ?_).2.2.2
      rintro v o ⟨hv, hf, hc, hn⟩ hg -
      exact ⟨hv.op hg, hf.op hv.graph hg, hc.op hf hv.graph hg, hn.op hc hv.graph hg⟩

end Adbd
