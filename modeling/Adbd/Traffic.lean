import Adbd.Phases

/-!
# What Is Sent to a Remote

The packets that go through the pipe from the main loop to the input thread of a transport,
recorded along a run: those that were put in, and those that the input thread took out. What
holds of every move of a transport, by `Adbd.Phases`, then holds at the end of every run of
the daemon.

## Main definitions

* `Traced`: the daemon, with what was sent to a transport and read by its input thread.
* `Traced.step`: a step of the daemon, recorded.

## Main results

* `Traced.invariant`: an invariant of the moves of a transport holds in every run.
* `sync_gating`: the input thread hands the remote what was sent between the opening `SYNC`
  and the first `SYNC(0)`, in order, and no packet is sent before the opening `SYNC`.
-/

namespace Adbd

open Program Custody

variable {s s' : System} {t : TId} {T : ATransport} {l : Life} {a : Action}

/-- The packets in the pipe to the input thread of `t`, oldest first. -/
def System.outbox (s : System) (t : TId) : List APacket :=
  (s.core.transports t).elim [] (·.mainToIo)

/-- The packets that a step puts into that pipe. -/
def System.puts (s : System) (t : TId) (b : Action) (s' : System) : List APacket :=
  if s.takes t b then [] else (s'.outbox t).drop (s.outbox t).length

/-- The packets that it takes out. -/
def System.pops (s : System) (t : TId) (b : Action) : List APacket :=
  if s.takes t b then (s.outbox t).take 1 else []

/-- The daemon, with the packets sent so far to a transport, and those its input thread has
read. -/
structure Traced where
  system : System
  sent : List APacket
  read : List APacket

namespace Traced

variable {x x' : Traced}

/-- The daemon when `fdevent_loop` starts. -/
def init : Traced := ⟨System.init, [], []⟩

/-- A step of the daemon, and what it does to the pipe of `t`. -/
def step (t : TId) (x : Traced) (a : Action) : Except Stop Traced :=
  match Adbd.step x.system a with
  | .ok s' => .ok ⟨s', x.sent ++ x.system.puts t a s', x.read ++ x.system.pops t a⟩
  | .error e => .error e

theorem step_ok (h : step t x a = .ok x') : Adbd.step x.system a = .ok x'.system ∧
    x'.sent = x.sent ++ x.system.puts t a x'.system ∧
      x'.read = x.read ++ x.system.pops t a := by
  rw [step] at h
  split at h
  · next s' hs =>
    obtain rfl := Except.ok.inj h
    exact ⟨hs, rfl, rfl⟩
  · cases h

end Traced

/-- A transport that has been started stays so. -/
theorem step_started (hr : Reachable s) (hs : step s a = .ok s') (hl : s.life t = some l)
    (hst : l.started = true) : ∃ l', s'.life t = some l' ∧ l'.started = true := by
  have hthread {t' : TId} {l₀ : Life} (hl₀ : s.life t' = some l₀) (h : ThreadStep s s' t' l₀) :
      ∃ l', s'.life t = some l' ∧ l'.started = true := by
    by_cases ht : t' = t
    · subst ht
      obtain rfl := Option.some.inj (hl₀.symm.trans hl)
      obtain ⟨l', b, hm, hlife, -⟩ := h
      exact ⟨l', by rw [hlife]; exact Function.update_self .., hm.started.trans hst⟩
    · exact ⟨l, h.other ht hl, hst⟩
  cases a with
  | register type =>
      obtain rfl := Except.ok.inj hs
      have hne : t ≠ s.nextT := by
        rintro rfl
        simp [hr.lives.fresh _ (Nat.le_refl _)] at hl
      exact ⟨l, by simpa [System.setLife, hne] using hl, hst⟩
  | select ready =>
      obtain rfl := step_select hs
      exact ⟨l, hl, hst⟩
  | dispatch io =>
      obtain ⟨k, rest, -, -, hcb⟩ := step_dispatch hs
      rcases callback_cases hcb with ⟨-, hlife, -, -⟩ | ⟨m, rest', l₀, -, hl₀, hm⟩
      · exact ⟨l, by rw [hlife]; exact hl, hst⟩
      · by_cases ht : m.transport = t
        · obtain rfl := Option.some.inj (hl.symm.trans (ht ▸ hl₀))
          rw [ht] at hm
          rcases hm with ⟨-, -, hrun⟩ | ⟨-, -, hrun⟩
          · refine ⟨{ l with started := true, refCount := 2, refs := [2] }, ?_, rfl⟩
            rw [(System.run_same hrun).1]
            exact Function.update_self ..
          · refine ⟨{ l with freed := true }, ?_, hst⟩
            rw [(System.run_same hrun).1]
            exact Function.update_self ..
        · refine ⟨l, ?_, hst⟩
          rcases hm with ⟨-, -, hrun⟩ | ⟨-, -, hrun⟩
          all_goals
            rw [(System.run_same hrun).1]
            simpa [System.setLife, Ne.symm ht] using hl
  | output t' r fails =>
      obtain ⟨l₀, hl₀, hst₀, hs⟩ := step_outputThread hs
      exact hthread hl₀ (threadStep_output hl₀ ((hr.lives.tracked t' l₀ hl₀).ok hst₀) hs)
  | input t' fails =>
      obtain ⟨l₀, hl₀, hst₀, hs⟩ := step_inputThread hs
      exact hthread hl₀ (threadStep_input ((hr.lives.tracked t' l₀ hl₀).ok hst₀) hs)

/-- A transport of the main loop has a life. -/
theorem Lives.exists_life (h : Lives s) (hT : s.core.transports t = some T) :
    ∃ l, s.life t = some l := by
  cases hl : s.life t with
  | none => exact ((h.unborn t hl).1.1.mp (by simp [hT])).elim
  | some l => exact ⟨l, rfl⟩

/-- Before its threads are started a transport has no pipe. -/
theorem Reachable.no_transport (hr : Reachable s)
    (h : ∀ l, s.life t = some l → l.started = false) : s.core.transports t = none := by
  by_contra hne
  obtain ⟨T, hT⟩ := Option.ne_none_iff_exists'.mp hne
  obtain ⟨l, hl⟩ := hr.lives.exists_life hT
  have hst := ((hr.lives.tracked t l hl).has.1.mp hne).1
  simp [h l hl] at hst

/-- What a move puts into the pipe to the input thread, and takes out of it. -/
theorem Link.Step.toIo {L L' : Link} {e : Link.Event} (h : L.Step e L') :
    match e with
    | .takes m => L.toIo = m :: L'.toIo
    | _ => L'.toIo = L.toIo ++ e.sent := by
  cases h with
  | take hi hq => exact hq
  | _ => simp [Link.Event.sent]

namespace Traced

variable {x : Traced} {ok : Traced → Action → Prop}

/-- **The invariant rule for a transport**: what holds of a transport that has just been
started, and is kept by its moves, holds of it at the end of every run. -/
theorem invariant {I : Link → List APacket → List APacket → Prop} {A : Link.Event → Prop}
    (h : Trans.Runs (step t) ok init x) (h0 : I Link.start [] [])
    (hok : ∀ x a e, ok x a → e.Fits x.system t a → A e)
    (hstep : ∀ L e L' sent read, I L sent read → L.Step e L' → A e →
      I L' (sent ++ e.sent) (read ++ e.read)) :
    Reachable x.system ∧ ∀ l T, x.system.life t = some l →
    x.system.core.transports t = some T →
      I (l.link T) x.sent x.read := by
  let J : Traced → Prop := fun x => Reachable x.system ∧
    (∀ l T, x.system.life t = some l → x.system.core.transports t = some T →
      I (l.link T) x.sent x.read) ∧
    ((∀ l, x.system.life t = some l → l.started = false) → x.sent = [] ∧ x.read = [])
  suffices hJ : J x from ⟨hJ.1, hJ.2.1⟩
  refine h.invariant (I := J) ⟨Trans.Runs.refl, fun l T hl => ?_, fun _ => ⟨rfl, rfl⟩⟩ ?_
  · cases hl
  rintro x a x' ⟨hr, hlink, hnew⟩ ha hs
  obtain ⟨hs, hsent, hread⟩ := step_ok hs
  have hr' : Reachable x'.system := Trans.Runs.tail hr trivial hs
  refine ⟨hr', fun l' T' hl' hT' => ?_, fun hno => ?_⟩
  · cases hT : x.system.core.transports t with
    | none =>
        obtain ⟨l₁, hl₁, hstart, hwait⟩ := step_link_start hr hs hT hT'
        obtain rfl := Option.some.inj (hl₁.symm.trans hl')
        obtain ⟨hs₀, hr₀⟩ := hnew hwait
        have hpipe : x.system.outbox t = [] := by simp [System.outbox, hT]
        have hpipe' : x'.system.outbox t = [] := by
          rw [System.outbox, hT']
          exact congrArg Link.toIo hstart
        rw [hstart, hsent, hread, hs₀, hr₀, System.puts, System.pops, hpipe, hpipe']
        simpa using h0
    | some T =>
        obtain ⟨l, hl⟩ := hr.lives.exists_life hT
        obtain ⟨l₁, e, hl₁, hmove, hfits⟩ := step_link hr hs hl hT hT'
        obtain rfl := Option.some.inj (hl₁.symm.trans hl')
        have hpipe : x.system.outbox t = (l.link T).toIo := by
          simp [System.outbox, hT, Life.link]
        have hpipe' : x'.system.outbox t = (l₁.link T').toIo := by
          simp [System.outbox, hT', Life.link]
        have hio := hmove.toIo
        have hev : x.system.puts t a x'.system = e.sent ∧ x.system.pops t a = e.read := by
          rw [System.puts, System.pops, hpipe, hpipe']
          cases e with
          | takes m =>
              have htakes : x.system.takes t a = true := hfits
              rw [htakes, show (l.link T).toIo = _ from hio]
              exact ⟨rfl, rfl⟩
          | sends | silent =>
              have hno : x.system.takes t a = false := hfits
              rw [hno, show (l₁.link T').toIo = _ from hio]
              simp [Link.Event.read]
          | receives | fails =>
              have hno : x.system.takes t a = false := hfits.1
              rw [hno, show (l₁.link T').toIo = _ from hio]
              simp [Link.Event.read]
        rw [hsent, hread, hev.1, hev.2]
        exact hstep _ e _ _ _ (hlink l T hl hT) hmove (hok x a e ha hfits)
  · have hwait : ∀ l, x.system.life t = some l → l.started = false := by
      intro l hl
      by_contra hst
      obtain ⟨l', hl', hst'⟩ := step_started hr hs hl (by simpa using hst)
      simp [hno l' hl'] at hst'
    obtain ⟨hs₀, hr₀⟩ := hnew hwait
    have hpipe : x.system.outbox t = [] := by simp [System.outbox, hr.no_transport hwait]
    have hpipe' : x'.system.outbox t = [] := by simp [System.outbox, hr'.no_transport hno]
    rw [hsent, hread, hs₀, hr₀, System.puts, System.pops, hpipe, hpipe']
    simp

end Traced

/-- Replaying actions shows that a recorded state is reached. -/
theorem Traced.exists_run (t : TId) (as : List Action) {P : Traced → Bool}
    (h : (Trans.follow (Traced.step t) (fun _ _ => true) Traced.init as).any P = true) :
    ∃ x, Trans.Runs (Traced.step t) (fun _ _ => True) Traced.init x ∧ P x = true :=
  Trans.exists_runs as (fun _ _ _ => trivial) h

/-- **SYNC gating loses no reply**, in every interleaving of the threads of a transport and
the main loop and for whatever the remote sends. The pipe keeps the order of what is sent on
the transport. What the input thread handed to `write_to_remote` is what of it was read
between the `SYNC` with the token and the first `SYNC(0)`, without the `SYNC`s; it is the
first part of what of all that was sent is so placed, and all of it once the pipe is empty
or the input thread has read the `SYNC(0)`. The opening `SYNC` is the very first packet
sent, so no other packet sent before the first `SYNC(0)` is dropped. The pipes of the transport
are its own: nobody else gets their numbers. -/
theorem sync_gating {x : Traced}
    (h : Trans.Runs (Traced.step t) (fun _ _ => True) Traced.init x)
    (hl : x.system.life t = some l) (hT : x.system.core.transports t = some T) :
    x.sent = x.read ++ x.system.outbox t ∧
    l.toRemote = Link.gated l.syncToken x.read ∧
    l.toRemote <+: Link.gated l.syncToken x.sent ∧
    (x.system.outbox t = [] ∨ (∃ p ∈ x.read, Sync0 p.msg) →
      l.toRemote = Link.gated l.syncToken x.sent) ∧
    (∀ p, x.sent.head? = some p → p.msg = syncMsg 1 l.syncToken) ∧
    Link.gated l.syncToken x.sent =
      (x.sent.takeWhile fun p => ¬Sync0 p.msg).filter fun p => p.msg.command ≠ A_SYNC := by
  have hgate : (l.link T).Gate x.sent x.read :=
    (Traced.invariant (A := fun _ => True) h .init (fun _ _ _ _ _ => trivial)
      fun _ _ _ _ _ hg hs _ => hg.step hs).2 l T hl hT
  have hpipe : x.system.outbox t = (l.link T).toIo := by simp [System.outbox, hT, Life.link]
  have hsent : Link.gated l.syncToken x.sent = Link.payload x.sent := hgate.gated_sent
  have hread : Link.gated l.syncToken x.read = Link.payload x.read := hgate.gated_read
  rw [hpipe, hsent, hread]
  refine ⟨hgate.fifo, hgate.remote, hgate.remote_le, hgate.remote_eq, fun p hp => ?_, rfl⟩
  rcases hgate.opened with hd | ⟨hnil, -⟩
  · simpa [hp, Life.link] using hd
  · simp [hnil] at hp

/-- The remote connects, and gets the answer. -/
theorem sync_gating_connect : ∃ (x : Traced) (l : Life) (T : ATransport),
    x.system.life 0 = some l ∧ x.system.core.transports 0 = some T ∧ x.system.outbox 0 = [] ∧
      l.toRemote ≠ [] ∧ l.toRemote = Link.gated l.syncToken x.sent := by
  obtain ⟨x, hx, hP⟩ :=
    Traced.exists_run 0 (connect 0 .usb ++ [.input 0 false, .input 0 false])
    (P := fun x => (x.system.life 0).any (fun l => l.toRemote ≠ []) &&
      (x.system.core.transports 0).any fun T => T.mainToIo = []) (by decide +kernel)
  obtain ⟨hP₁, hP₂⟩ := (Bool.and_eq_true _ _).mp hP
  obtain ⟨l, hl, hne⟩ := (Option.any_eq_true _ _).mp hP₁
  obtain ⟨T, hT, hnil⟩ := (Option.any_eq_true _ _).mp hP₂
  have hpipe : x.system.outbox 0 = [] := by
    have hio : T.mainToIo = [] := by simpa using hnil
    simp [System.outbox, hT, hio]
  obtain ⟨-, -, -, hall, -⟩ := sync_gating hx hl hT
  exact ⟨x, l, T, hl, hT, hpipe, by simpa using hne, hall (.inl hpipe)⟩

end Adbd
