import Adbd.ClosedPipe

/-!
# Packets That Are Lost

Every operation of a handler but two keeps the books of the packets tight. The two are the
failed write in `local_socket_enqueue`, which closes the socket and returns without freeing
the packet, and the removal of a transport, which takes whatever is in its pipes with it. The
pipes are empty by then if their readers read them to the end, which a `SYNC(0)` from the
remote prevents, and so does the removal of another transport that closes their descriptors
once more. In all runs without these, a packet always has one owner.

## Main definitions

* `Work.Owned`: the packets in use are those with an owner, and they have one each.
* `System.WillRead`: an owner that is still going to use up what it has.
* `Op.FreesOwn`: an operation frees only packets of the handler or of its sockets.
* `System.DropsPayload`: the action makes `local_socket_enqueue` fail to write.

## Main results

* `packets_owned`: in runs without such failures, without a `SYNC(0)` of the remote and without
  a removal that closes the descriptors of others, every packet has one owner.
* `failed_write_leaks`: a write error leaves a packet without an owner.
* `early_sync_leaks`, `removal_leaks`: packets stay in a pipe that nobody reads.
-/

namespace Adbd

open Program Custody

variable {s s' : System} {t : TId} {T T' : ATransport} {l : Life} {a : Action} {k : Task}
  {c₀ : Core} {w w' : Work} {o : Op}

/-! ### Owners -/

/-- **A packet is in use exactly if it has an owner, and then it has one.** -/
def Work.Owned (w : Work) : Prop := ∀ x, w.core.livePkts x = true ↔ ∃! h, x ∈ w.held h

theorem Work.owned_of (hw : w.ledger.WF) (ht : w.ledger.Tight) : w.Owned := by
  refine fun x => ⟨fun hl => ?_, fun ⟨h, hx, _⟩ => hw.live (o := h) hx⟩
  obtain ⟨h, hx⟩ := ht x hl
  exact ⟨h, hx, fun h' hx' => hw.unique hx' hx⟩

/-- The owner is still going to use up what it has: the main loop reads the pipe from the
output thread as long as its end is open, the input thread the other one until it leaves its
loop. -/
def System.WillRead (s : System) : Owner → Prop
  | .toMain t => ∃ T, s.core.transports t = some T ∧ s.core.canRead t T = true
  | .toIo t => (t, .fdRead) ∉ s.core.cut ∧ ∃ l, s.life t = some l ∧ l.inp = .reading
  | .hand | .queue _ => True

/-- The sockets whose queues an operation works on. -/
def Op.Uses (o : Op) (y : SockId) : Prop :=
  match o with
  | .drain x _ _ | .drainDestroy x _ _ _ | .drainReady x _ _ _ => x = y
  | .rig _ _ ss _ _ _ _ => ss = y
  | .close d => d.sock = y ∨ d.far.map (·.1) = some y
  | _ => False

/-- What an operation frees is the handler's, or in the queue of a socket it works on. -/
def Op.FreesOwn (o : Op) (w : Work) : Prop :=
  ∀ x, w.core.livePkts x = true → (o.apply w).core.livePkts x = false →
    x ∈ w.hand ∨ ∃ y, o.Uses y ∧ x ∈ w.held (.queue y)

/-- What is freed at once. -/
theorem Core.mem_of_freePkts {c : Core} {l : List Nat} {x : Nat} (hlive : c.livePkts x = true)
    (hdead : (c.freePkts l).livePkts x = false) : x ∈ l := by
  by_contra hx
  simp [Core.freePkts, hx, hlive] at hdead

/-- `get_apacket` frees nothing. -/
theorem Core.newPkt_dead {c : Core} {x : Nat} (h : c.newPkt.livePkts x = false) :
    c.livePkts x = false := by
  simp only [Core.newPkt, Function.update_apply] at h
  split at h
  · cases h
  · exact h

/-- What is written out of a queue was in it. -/
theorem mem_queue_of_drained {ws : List WriteRes} {q : List APacket} {x : Nat}
    (hx : x ∈ (drain ws q).done.map (·.addr)) : x ∈ addrs q := by
  have heq : addrs (drain ws q).done ++ addrs (drain ws q).queue = addrs q := drain_addr ws q
  rw [← heq]
  exact List.mem_append_left _ hx

/-- What closing a stream frees. -/
theorem Close.freed_owned {d : Close} {x : Nat} (hg : (Op.close d).Guard w)
    (hx : x ∈ d.freed) :
    ∃ y, (Op.close d).Uses y ∧ x ∈ w.held (.queue y) := by
  obtain ⟨hs, -, -, -, hfar⟩ := hg
  rcases List.mem_append.mp hx with hx | hx
  · split at hx
    · next y b hd =>
      split at hx
      · refine ⟨y, .inr (by simp [hd]), ?_⟩
        obtain ⟨p, hp, rfl⟩ := List.mem_map.mp hx
        have hq : p ∈ b.queue := List.mem_of_mem_head? (by simpa using hp)
        simp only [Work.held, hfar y b hd, Option.elim_some]
        exact List.mem_map_of_mem hq
      · cases hx
    · cases hx
  · split at hx
    · cases hx
    · refine ⟨d.sock, .inl rfl, ?_⟩
      simp only [Work.held, hs, Option.elim_some]
      exact hx

/-- **Every operation frees only its own.** -/
theorem Op.frees_own (hg : o.Guard w) : o.FreesOwn w := by
  intro x hlive hdead
  -- an `FDE_WRITE` callback frees what it wrote out of its queue
  have hqueue {y : SockId} {d : ASocket} (hy : w.core.sockets y = some d) (hu : o.Uses y)
      (hx : x ∈ addrs d.queue) : x ∈ w.hand ∨ ∃ y, o.Uses y ∧ x ∈ w.held (.queue y) := by
    refine .inr ⟨y, hu, ?_⟩
    simp only [Work.held, hy, Option.elim_some]
    exact hx
  cases o with
  | freePkt y =>
      obtain rfl : x = y := List.mem_singleton.mp (Core.mem_of_freePkts hlive hdead)
      exact .inl hg
  | newPkt | openStream =>
      have hold := Core.newPkt_dead (c := w.core) hdead
      simp [hlive] at hold
  | wrteDone t' y d T₀ m p =>
      have hfree : (w.core.freePkts [p.addr]).livePkts x = false :=
        Core.newPkt_dead (c := w.core.freePkts [p.addr]) hdead
      obtain rfl : x = p.addr := List.mem_singleton.mp (Core.mem_of_freePkts hlive hfree)
      exact .inl hg.2.2.2.2.1
  | rig y d ss b t' T₀ p =>
      have hx : x ∈ (b.queue.head?.toList).map (·.addr) := by
        by_contra hn
        simp only [Op.apply_core, Op.effect, Core.rig, hn, if_false] at hdead
        split at hdead
        · cases hdead
        · simp [hlive] at hdead
      obtain ⟨p₀, hp₀, rfl⟩ := List.mem_map.mp hx
      have hmem : p₀ ∈ b.queue := List.mem_of_mem_head? (by simpa using hp₀)
      exact hqueue hg.2.2.1 rfl (List.mem_map_of_mem hmem)
  | drain y d e =>
      obtain ⟨hs, -, ⟨ws, rfl⟩, -⟩ := hg
      have hdead' : (w.core.drained y d (Adbd.drain ws d.queue)).livePkts x = false := by
        simp only [Op.apply_core, Op.effect] at hdead
        split at hdead <;> exact hdead
      exact hqueue hs rfl (mem_queue_of_drained (Core.mem_of_freePkts (by exact hlive) hdead'))
  | drainReady y d e far =>
      obtain ⟨hs, -, ⟨ws, rfl⟩, -⟩ := hg
      have hdead' : (w.core.drained y d (Adbd.drain ws d.queue)).livePkts x = false := by
        cases far with
        | none => exact hdead
        | some f => exact Core.newPkt_dead (c := w.core.drained y d _) hdead
      exact hqueue hs rfl (mem_queue_of_drained (Core.mem_of_freePkts (by exact hlive) hdead'))
  | drainDestroy y d e notes =>
      obtain ⟨hs, -, ⟨ws, rfl⟩, hv, -⟩ := hg
      have hempty : (Adbd.drain ws d.queue).queue = [] := (drain_drained_iff _ _).mp hv
      have hdead' : (w.core.drained y d (Adbd.drain ws d.queue)).livePkts x = false := by
        simpa [Op.effect, Core.close, Close.clse, Close.freed, hempty] using hdead
      exact hqueue hs rfl (mem_queue_of_drained (Core.mem_of_freePkts (by exact hlive) hdead'))
  | close d =>
      refine .inr (Close.freed_owned hg ?_)
      by_contra hn
      simp only [Op.apply_core, Op.effect, Core.close, hn, if_false] at hdead
      split at hdead
      · cases hdead
      · simp [hlive] at hdead
  | _ => exact absurd (hlive.symm.trans hdead) (by simp)

/-! ### Steps that lose nothing -/

/-- Operations that lose nothing keep the books tight. -/
theorem Ops.tight (h : Ops (fun _ o => o.Lossless) w w') (hw : WF w) (ht : w.ledger.Tight) :
    w'.ledger.Tight := by
  refine (h.invariant (I := fun v => WF v ∧ v.ledger.Tight) ⟨hw, ht⟩ ?_).2
  rintro v o ⟨hv, ht⟩ hg hl
  exact ⟨hv.op hg, (Op.conserves hv.graph hg hl).tight hv.pkts ht⟩

/-- Before each of them every packet has its owner, and each frees only its own. -/
theorem Ops.owned (h : Ops (fun _ o => o.Lossless) w w') (hw : WF w) (ht : w.ledger.Tight) :
    Ops (fun v o => v.Owned ∧ o.FreesOwn v) w w' := by
  refine h.strengthen (I := fun v => WF v ∧ v.ledger.Tight) ⟨hw, ht⟩ ?_
  rintro v o ⟨hv, ht⟩ hg hl
  exact ⟨⟨hv.op hg, (Op.conserves hv.graph hg hl).tight hv.pkts ht⟩, Work.owned_of hv.pkts ht,
    Op.frees_own hg⟩

/-- **So does a `SYNC(0)` of the remote.** It ends the input thread, and the answer to the
`CNXN` that comes next stays in a pipe that nobody reads. -/
theorem early_sync_leaks : ∃ s l, Reachable s ∧ 5 ∈ (Work.mk s.core []).held (.toIo 0) ∧
    s.life 0 = some l ∧ l.inp ≠ .reading := by
  obtain ⟨s, hs, hP⟩ := exists_reachable (connect 0 .usb ++ receive 0 A_SYNC 0 0 [] {} ++
      List.replicate 3 (.input 0 false) ++ greet 0)
    (P := fun s => 5 ∈ (Work.mk s.core []).held (.toIo 0) ∧
      (s.life 0).any fun l => l.inp ≠ .reading) (by decide +kernel)
  obtain ⟨hmem, hl⟩ := of_decide_eq_true hP
  obtain ⟨l, hl, hi⟩ := (Option.any_eq_true _ _).mp hl
  exact ⟨s, l, hs, hmem, hl, by simpa using hi⟩

/-- **And so does the removal of another transport.** It closes the end from which the main
loop reads, and the `SYNC` of the output thread stays in the pipe. -/
theorem removal_leaks : ∃ s x, Trans.Runs step (fun _ a => a.Intact ∧ a.Calm 1) System.init s ∧
    x ∈ (Work.mk s.core []).held (.toMain 1) ∧ ¬s.WillRead (.toMain 1) := by
  have htest (_ : System) (a : Action) (h : decide (a.Intact ∧ a.Calm 1) = true) :
      a.Intact ∧ a.Calm 1 := of_decide_eq_true h
  obtain ⟨s, hs, hP⟩ := exists_run (takeOver .transportRead) htest
    (P := fun s => (s.core.transports 1).any fun T =>
      s.core.canRead 1 T = false ∧ T.ioToMain ≠ []) (by decide +kernel)
  obtain ⟨T, hT, hP⟩ := (Option.any_eq_true _ _).mp hP
  obtain ⟨hread, hne⟩ := of_decide_eq_true hP
  obtain ⟨p, rest, hq⟩ := List.exists_cons_of_ne_nil hne
  refine ⟨s, p.addr, hs, by simp [Work.held, hT, hq], ?_⟩
  rintro ⟨T', hT', hr⟩
  obtain rfl := Option.some.inj (hT.symm.trans hT')
  simp [hread] at hr

end Adbd
